import Curf.Proxy.Held
import Curf.RateLimit.Sequential

/-!
# What gets through

However requests, checks and dropped connections interleave, a request stays on its
course: what is passed on or answered from files has passed the filter and belongs to the
domain that the request names, and every reply goes to the request it was given for
(`on_course`). Of the request and of the reply the proxy changes little
(`answered_transparent`), and `engaged_rate` says how many requests one client can get
through.
-/

namespace Curf

open Lib Lib.Multimap

namespace Handler

variable {C : Crates} {p : Handler} {req : Request} {peer : IpAddr}

/-- The names of the headers that are put on a request. -/
def forwardingNames : List String := ["x-forwarded-for", "x-real-ip", "x-forwarded-host"]

theorem forwardingHeaders_names {headers : HeaderMap} {host : Text} :
    ∀ h ∈ forwardingHeaders C headers peer host, h.1 ∈ forwardingNames := by
  intro h hh
  unfold forwardingHeaders at hh
  rcases List.mem_append.mp hh with hh | hh
  · simp only [List.mem_cons, List.not_mem_nil, or_false] at hh
    rcases hh with rfl | rfl <;> simp [forwardingNames]
  · split at hh
    · obtain rfl := List.mem_singleton.mp hh
      simp [forwardingNames]
    · cases hh

/-- The extra headers are put on a response, and nothing else is done to it. -/
theorem injectExtraHeaders_ok {resp r : Response}
    (h : injectExtraHeaders C resp (hostOf C.caseTable req.headers) p.domainConfigs = .ok r) :
    r = { resp with headers := putAll resp.headers (p.extraOf C req) } := by
  rw [injectExtraHeaders_eq] at h
  unfold extraOf configOf
  cases hf : p.domainConfigs.find (hostOf C.caseTable req.headers) with
  | none => rw [hf] at h; cases h; rfl
  | some e =>
    rw [hf] at h
    dsimp only at h
    split at h
    · cases h; rfl
    · cases h

end Handler

/-- `select` returns one of the URLs. -/
theorem LoadBalancer.mem_urls_of_select {lb : LoadBalancer} {ip : Option IpAddr} {now : UInt64} {url : String}
    {i : Nat} (h : (lb.select ip now).1 = some (url, i)) : url ∈ lb.urls := by
  rw [LoadBalancer.select_fst] at h
  obtain ⟨j, hj, hurl⟩ := Option.map_eq_some_iff.mp h
  cases hurl
  obtain ⟨b, hb, -⟩ := LoadBalancer.pick_available hj
  rw [LoadBalancer.urlAt_eq, LoadBalancer.urls_getElem?, hb]
  exact List.mem_map_of_mem (List.mem_of_getElem? hb)

/-- The exchange with a backend that is over. -/
def FlightPhase.exchange : FlightPhase → Option Exchange
  | .ending _ _ x => x
  | .answered _ (some (.backend x)) => some x
  | .answered _ (some .staticFile) | .answered _ none => none
  | .reading | .routing _ | .connecting .. | .sending .. | .dropped => none

/-- How a request is passed on. -/
def kindOf (req : Request) : RequestKind := if isWebsocketUpgrade req then .websocket else .http

namespace Flight

variable (C : Crates) (p : Handler) (f : Flight)

/-- The configuration has an entry for the request's host. -/
def IsFor (e : Text × DomainConfig) : Prop := p.domainConfigs.find (f.host C) = some e

/-- The exchange is one with a backend of the host's domain. -/
def MeetsBackend (x : Exchange) : Prop :=
  ∃ e, f.IsFor C p e ∧ ∃ url ∈ e.2.backends, ∃ uri, C.parseUri url.toList = some uri ∧
    x.addr = backendAddr uri ∧ x.sent = forwardedRequest C f.req (f.host C) f.peer

/-- The response is made of what the service has given: a file of the host's directory, or
the reply of a backend of its domain. -/
def ServedWith (response : Response) : Service → Prop
  | .staticFile => ∃ e, f.IsFor C p e ∧ ∃ sf ∈ e.2.staticFiles, ∃ fs r,
      (StaticFileServer.new sf).serve C fs (utf8 f.req.path) f.req.method f.req.headers = .ok (some r) ∧
        injectExtraHeaders C r (f.host C) p.domainConfigs = .ok response
  | .backend x => f.MeetsBackend C p x ∧ p.relay C (f.host C) (kindOf f.req) x.reply = .ok response

/-- The filter lets the request through, and it is not redirected. -/
def LetThrough : Prop := p.checkRequest C f.req = .ok () ∧ p.redirects C f.req f.isTls = false

/-- What is so of a request in its phase. -/
def OnCourse : Prop :=
  match f.phase with
  | .reading => f.LetThrough C p ∧ kindOf f.req = .http
  | .routing kind => f.LetThrough C p ∧ kindOf f.req = kind
  | .connecting kind url _ => f.LetThrough C p ∧ kindOf f.req = kind ∧ ∃ e, f.IsFor C p e ∧ url ∈ e.2.backends
  | .sending kind _ _ addr sent => f.LetThrough C p ∧ kindOf f.req = kind ∧
      ∀ reply, f.MeetsBackend C p ⟨addr, sent, reply⟩
  | .ending kind _ x => f.LetThrough C p ∧ kindOf f.req = kind ∧ ∀ y, x = some y → f.MeetsBackend C p y
  | .answered response service => ∀ sv, service = some sv → f.LetThrough C p ∧ f.ServedWith C p response sv
  | .dropped => True

/-- The request has been let through and is on its way, has been served or was dropped: it
has not got its answer from the proxy itself. -/
def engaged : Bool :=
  match f.phase with
  | .answered _ none => false
  | .answered _ (some _) | .reading | .routing _ | .connecting .. | .sending .. | .ending .. | .dropped => true

end Flight

namespace Traffic

variable {C : Crates} {s s' : Traffic} {e : TrafficEvent} {es past : List TrafficEvent} {d : Domains} {p : Handler}
  {k : Nat} {f : Flight} {env : Environment} {lb? : Option LoadBalancer} {phase : FlightPhase}

/-- The reply of the exchange came to the request `k`, for what it had sent. -/
def RepliedTo (past : List TrafficEvent) (k : Nat) (phase : FlightPhase) : Prop :=
  ∀ x, phase.exchange = some x → ∃ env, .go k env ∈ past ∧ x.reply = env.network.send x.addr x.sent

theorem RepliedTo.mono (h : RepliedTo past k phase) (e : TrafficEvent) : RepliedTo (past ++ [e]) k phase := by
  intro x hx
  obtain ⟨env, henv, hreply⟩ := h x hx
  exact ⟨env, List.mem_append_left _ henv, hreply⟩

theorem RepliedTo.go {phase' : FlightPhase} (h : RepliedTo past k phase)
    (hgo : Handler.Goes C p env f phase lb? phase') : RepliedTo (past ++ [.go k env]) k phase' := by
  have hnew : TrafficEvent.go k env ∈ past ++ [.go k env] := List.mem_append_right _ List.mem_cons_self
  cases hgo with
  | replied =>
    intro x hx
    cases hx
    exact ⟨env, hnew, rfl⟩
  | @ended kind i x r hr =>
    cases x with
    | none => exact nofun
    | some y => exact fun x hx => h.mono _ x hx
  | stays => exact h.mono _
  | unread | served | unrouted | allDown | selected | connected | unconnected | gone => exact nofun

/-- What the requests are at, and what the handler still has of the start. -/
structure Routed (C : Crates) (p : Handler) (past : List TrafficEvent) (s : Traffic) : Prop where
  held : Held C p.domainConfigs past s
  domains : s.handler.domainConfigs = p.domainConfigs
  statics : s.handler.staticServers = p.domainConfigs.collect fun cfg => cfg.staticFiles.map .new
  flags : s.handler.security = p.security
  flights : ∀ k f, s.flights k = some f → f.OnCourse C p ∧ RepliedTo past k f.phase

theorem relay_congr {q : Handler} (h : q.domainConfigs = p.domainConfigs) (host : Text) (kind : RequestKind)
    (reply : Option Response) : q.relay C host kind reply = p.relay C host kind reply := by
  simp only [Handler.relay, h]

/-- The request goes on its course. -/
theorem Routed.go (h : Routed C p past s) (hf : f.OnCourse C p) (hgo : Handler.Goes C s.handler env f f.phase lb? phase) :
    Flight.OnCourse C p { f with phase } := by
  obtain ⟨peer, req, isTls, before⟩ := f
  cases hgo with
  | unread hstatic => exact hf
  | @served resp r hstatic hr =>
    intro sv hsv
    cases hsv
    refine ⟨hf.1, ?_⟩
    rw [h.domains] at hr
    unfold Handler.serveStatic at hstatic
    rw [h.statics, Domains.collect_apply] at hstatic
    split at hstatic
    · cases hstatic
    · rename_i server hserver
      obtain ⟨e, he, hfiles⟩ := Option.bind_eq_some_iff.mp hserver
      obtain ⟨sf, hsf, rfl⟩ := Option.map_eq_some_iff.mp hfiles
      exact ⟨e, he, sf, hsf, env.fs, resp, hstatic, hr⟩
  | unrouted hlb hr => exact nofun
  | allDown hlb hsel hr => exact nofun
  | @selected kind lb url i hlb hsel =>
    obtain ⟨e, he, hurls⟩ := h.held.urls hlb
    exact ⟨hf.1, hf.2, e, he, hurls ▸ LoadBalancer.mem_urls_of_select hsel⟩
  | connected huri hconn =>
    obtain ⟨e, he, hurl⟩ := hf.2.2
    exact ⟨hf.1, hf.2.1, fun reply => ⟨e, he, _, hurl, _, huri, rfl, rfl⟩⟩
  | unconnected => exact ⟨hf.1, hf.2.1, nofun⟩
  | replied => exact ⟨hf.1, hf.2.1, fun y hy => by cases hy; exact hf.2.2 _⟩
  | @ended kind i x r hr =>
    intro sv hsv
    obtain ⟨y, rfl, rfl⟩ := Option.map_eq_some_iff.mp hsv
    obtain ⟨hpass, hkind, hmeets⟩ := hf
    rw [relay_congr h.domains, ← hkind] at hr
    exact ⟨hpass, hmeets y rfl, hr⟩
  | stays => exact hf
  | gone => trivial

/-- A request that has been let in. -/
theorem Routed.enter (h : Routed C p past s) {peer : IpAddr} {req : Request} {isTls allowed : Bool}
    (henter : s.handler.enter C req isTls allowed = .ok phase) : Flight.OnCourse C p ⟨peer, req, isTls, phase⟩ := by
  obtain ⟨r, rfl⟩ | ⟨-, hcheck, hredirect, rfl⟩ := Handler.enter_cases henter
  · exact nofun
  · have hpass (phase : FlightPhase) : Flight.LetThrough C p ⟨peer, req, isTls, phase⟩ := by
      refine ⟨?_, ?_⟩
      · rw [← hcheck, Handler.checkRequest, Handler.checkRequest, h.flags]
      · rw [← hredirect, Handler.redirects, Handler.redirects, Handler.configOf, Handler.configOf, h.domains]
    by_cases hws : isWebsocketUpgrade req = true
    · rw [if_pos hws]
      exact ⟨hpass _, if_pos hws⟩
    · rw [if_neg hws]
      exact ⟨hpass _, if_neg hws⟩

/-- What becomes of the request `k`. -/
theorem Routed.put (h : Routed C p past s) {e : TrafficEvent} {f : Flight} (hf : f.OnCourse C p)
    (hreplied : RepliedTo (past ++ [e]) k f.phase) :
    ∀ j g, s.flights.insert k f j = some g → g.OnCourse C p ∧ RepliedTo (past ++ [e]) j g.phase := by
  intro j g hj
  by_cases hk : j = k
  · subst hk
    rw [DashMap.insert_same] at hj
    cases hj
    exact ⟨hf, hreplied⟩
  · rw [DashMap.insert_other _ _ hk] at hj
    obtain ⟨hcourse, hreplied⟩ := h.flights j g hj
    exact ⟨hcourse, hreplied.mono e⟩

theorem Routed.step (h : Routed C p past s) (hs : s.step C e = some s') : Routed C p (past ++ [e]) s' := by
  have hheld := h.held.step hs
  cases moves_iff.mp hs with
  | @arrived k peer req isTls env phase hfree henter =>
    refine ⟨hheld, h.domains, h.statics, h.flags, h.put (h.enter henter) ?_⟩
    obtain ⟨r, rfl⟩ | ⟨-, -, -, rfl⟩ := Handler.enter_cases henter
    · exact nofun
    · dsimp only
      split <;> exact nofun
  | @gone k env f lb? phase hf hgo =>
    obtain ⟨hcourse, hreplied⟩ := h.flights k f hf
    have hgoes := Handler.goes_of_go hgo
    exact ⟨hheld, h.domains, h.statics, h.flags, h.put (h.go hcourse hgoes) (hreplied.go hgoes)⟩
  | @cancelled k f hf hopen =>
    exact ⟨hheld, h.domains, h.statics, h.flags, h.put (f := { f with phase := .dropped }) trivial nofun⟩
  | checked =>
    refine ⟨hheld, h.domains, h.statics, h.flags, fun j g hj => ?_⟩
    obtain ⟨hcourse, hreplied⟩ := h.flights j g hj
    exact ⟨hcourse, hreplied.mono _⟩

variable {rateLimiter : RateLimiter} {security : SecurityChecker}

theorem routed_of_run
    (hp : p = { toProxyHandler := .new (ProxyHandler.registered d) d, rateLimiter, security })
    (hrun : exec (step C) ⟨p, .empty⟩ es = some s) : Routed C p es s := by
  subst hp
  exact exec_inv_past (fun _ _ _ _ h hs => Routed.step h hs)
    ⟨held_of_run rfl (exec_nil _), rfl, rfl, rfl, fun _ _ hf => by cases hf⟩ hrun

/-- **Requests stay on their course.** However requests, checks and dropped connections
interleave, a request that is on its way to a backend or is answered with a service has
passed the filter and is not redirected, its backend or directory is one that is configured
for its host, its answer is made of what that gave, and no reply is to another request. -/
theorem on_course (hp : p = { toProxyHandler := .new (ProxyHandler.registered d) d, rateLimiter, security })
    (hrun : exec (step C) ⟨p, .empty⟩ es = some s) (hf : s.flights k = some f) :
    f.OnCourse C p ∧ RepliedTo es k f.phase :=
  (routed_of_run hp hrun).flights k f hf

/-- Two requests at once; one of the hosts is configured. -/
theorem on_course_two :
    ∃ s f, exec (step .sample) ⟨.single "h" { backends := ["http://a"] }, .empty⟩
        [.get 0 1 "h", .get 1 1 "g", .on 0, .on 1, .on 0, .on 1, .on 0, .on 0, .on 0] = some s ∧
      s.flights 0 = some f ∧ f.LetThrough .sample (.single "h" { backends := ["http://a"] }) ∧
      ∃ response sv, f.ServedWith .sample (.single "h" { backends := ["http://a"] }) response sv := by
  obtain ⟨s, hs⟩ : ∃ s, exec (step .sample) ⟨.single "h" { backends := ["http://a"] }, .empty⟩
    [.get 0 1 "h", .get 1 1 "g", .on 0, .on 1, .on 0, .on 1, .on 0, .on 0, .on 0] = some s := ⟨_, rfl⟩
  obtain ⟨f, response, sv, hf, hphase⟩ : ∃ f response sv, s.flights 0 = some f ∧
      f.phase = .answered response (some sv) := by
    cases hs
    exact ⟨_, _, _, rfl, rfl⟩
  obtain ⟨hcourse, -⟩ := on_course (d := ⟨[("h".toList, { backends := ["http://a"] })], List.nodup_singleton _⟩)
    rfl hs hf
  unfold Flight.OnCourse at hcourse
  rw [hphase] at hcourse
  obtain ⟨hpass, hserved⟩ := hcourse sv rfl
  exact ⟨s, f, hs, hf, hpass, response, sv, hserved⟩

/-- **The proxy is transparent.** A backend gets the request of the client with its method,
target and body, and with all headers but the three that tell where it comes from. The
client gets the status and the body of the reply to it, and all of its headers but those
that are configured for the domain; without a reply it gets 502. -/
theorem answered_transparent {x : Exchange} {response : Response}
    (hp : p = { toProxyHandler := .new (ProxyHandler.registered d) d, rateLimiter, security })
    (hrun : exec (step C) ⟨p, .empty⟩ es = some s) (hf : s.flights k = some f)
    (hphase : f.phase = .answered response (some (.backend x))) (hhttp : isWebsocketUpgrade f.req = false) :
    (x.sent.method = f.req.method ∧ x.sent.pathAndQuery = some (f.req.pathAndQuery.getD ['/']) ∧
        x.sent.body = f.req.body ∧
        ∀ name, name ∉ Handler.forwardingNames → values x.sent.headers name = values f.req.headers name) ∧
      (∃ env, .go k env ∈ es ∧ x.reply = env.network.send x.addr x.sent) ∧
      (∀ reply, x.reply = some reply → response.status = reply.status ∧ response.body = reply.body ∧
        ∀ name, (∀ h ∈ p.extraOf C f.req, h.1 ≠ name) →
          values response.headers name = values reply.headers name) ∧
      (x.reply = none → response.status = 502) := by
  obtain ⟨hcourse, hreplied⟩ := (routed_of_run hp hrun).flights k f hf
  unfold Flight.OnCourse at hcourse
  rw [hphase] at hcourse hreplied
  obtain ⟨-, ⟨e, -, url, -, uri, -, -, hsent⟩, hrelay⟩ := hcourse _ rfl
  rw [kindOf, hhttp, if_neg Bool.false_ne_true] at hrelay
  refine ⟨?_, hreplied x rfl, fun reply hsome => ?_, fun hnone => ?_⟩
  · rw [hsent]
    refine ⟨rfl, rfl, rfl, fun name hname => values_putAll_other fun h hh hkey => hname ?_⟩
    rw [← hkey]
    exact Handler.forwardingHeaders_names h hh
  · rw [hsome] at hrelay
    rw [Handler.injectExtraHeaders_ok hrelay]
    exact ⟨rfl, rfl, fun name hname => values_putAll_other hname⟩
  · obtain ⟨page, hpage⟩ := htmlError_eq C 502 "Bad Gateway" "The upstream server is unreachable."
    rw [hnone] at hrelay
    replace hrelay := hpage.symm.trans hrelay
    cases hrelay
    rfl

/-- A request with a body and headers of its own, between the steps of another one. -/
theorem answered_transparent_post :
    ∃ s f response x, exec (step .sample) ⟨.single "h" { backends := ["http://a"] }, .empty⟩
        [.get 0 1 "h", .arrive 1 (.v4 2) { Request.getRoot "h" [("x-real-ip", .ofString "me")] with body := [1, 2] }
            false (Handler.replying ⟨200, [], []⟩),
          .on 0, .on 1, .on 0, .on 1, .on 1, .on 0, .go 1 (Handler.replying ⟨201, [("server", .ofString "b")], [7]⟩),
          .on 0, .on 1] = some s ∧
      s.flights 1 = some f ∧ f.phase = .answered response (some (.backend x)) ∧ x.sent.body = [1, 2] ∧
      values x.sent.headers "host" = [.ofString "h"] ∧ response.status = 201 ∧ response.body = [7] := by
  obtain ⟨s, hs⟩ : ∃ s, exec (step .sample) ⟨.single "h" { backends := ["http://a"] }, .empty⟩
      [.get 0 1 "h", .arrive 1 (.v4 2) { Request.getRoot "h" [("x-real-ip", .ofString "me")] with body := [1, 2] }
          false (Handler.replying ⟨200, [], []⟩),
        .on 0, .on 1, .on 0, .on 1, .on 1, .on 0, .go 1 (Handler.replying ⟨201, [("server", .ofString "b")], [7]⟩),
        .on 0, .on 1] = some s := ⟨_, rfl⟩
  obtain ⟨f, response, x, hf, hphase, hreq, hreply⟩ : ∃ f response x, s.flights 1 = some f ∧
      f.phase = .answered response (some (.backend x)) ∧
      f.req = { Request.getRoot "h" [("x-real-ip", .ofString "me")] with body := [1, 2] } ∧
      x.reply = some ⟨201, [("server", .ofString "b")], [7]⟩ := by
    cases hs
    exact ⟨_, _, _, rfl, rfl, rfl, rfl⟩
  obtain ⟨⟨-, -, hbody, hheaders⟩, -, hback, -⟩ := answered_transparent
    (d := ⟨[("h".toList, { backends := ["http://a"] })], List.nodup_singleton _⟩) rfl hs hf hphase
    (by rw [hreq]; decide)
  obtain ⟨hstatus, hback, -⟩ := hback _ hreply
  refine ⟨s, f, response, x, hs, hf, hphase, hbody.trans (by rw [hreq]), ?_, hstatus, hback⟩
  rw [hheaders "host" (by decide), hreq]
  rfl

/-! ## How much -/

/-- The requests of `ip` with a clock reading in `[lo, hi]` that are so. -/
def engagedIn (s : Traffic) (es : List TrafficEvent) (ip : IpAddr) (lo hi : Rat) : Nat :=
  (arrivals es).countP fun a => decide (a.peer = ip ∧ lo ≤ a.now ∧ a.now ≤ hi) && (s.flights a.number).any Flight.engaged

def times (es : List TrafficEvent) : List Rat := (arrivals es).map (·.now)

variable {rps burst : Rat} {ip : IpAddr} {lo hi t0 : Rat} {l : Limiting}

/-- The limiter of the handler is that of a run of calls, by which all that is engaged was
admitted, and which is not ahead of the requests. -/
structure Metered (rps burst : Rat) (ip : IpAddr) (lo hi t0 : Rat) (past : List TrafficEvent) (s : Traffic)
    (l : Limiting) : Prop where
  lawful : Limiting.Lawful rps burst ip l
  limiter : l.limiter = s.handler.rateLimiter
  clock : ∀ t, (∀ u ∈ t0 :: times past, u ≤ t) → l.clock ≤ t
  bound : s.engagedIn past ip lo hi ≤ l.admittedIn ip lo hi

/-- Requests go on, and some are answered. -/
theorem Metered.quiet (h : Metered rps burst ip lo hi t0 past s l) (he : arrival e = none)
    (hlimiter : s'.handler.rateLimiter = s.handler.rateLimiter)
    (hengaged : ∀ k f', s'.flights k = some f' → f'.engaged = true → ∃ f, s.flights k = some f ∧ f.engaged = true) :
    Metered rps burst ip lo hi t0 (past ++ [e]) s' l := by
  have htimes : times (past ++ [e]) = times past := by rw [times, arrivals_quiet he, times]
  refine ⟨h.lawful, h.limiter.trans hlimiter.symm, by rw [htimes]; exact h.clock, le_trans ?_ h.bound⟩
  unfold engagedIn
  rw [arrivals_quiet he]
  refine List.countP_mono_left fun a _ ha => ?_
  obtain ⟨hwindow, hany⟩ := Bool.and_eq_true_iff.mp ha
  obtain ⟨f', hf', hon⟩ := (Option.any_eq_true ..).mp hany
  obtain ⟨f, hf, hon⟩ := hengaged _ f' hf' hon
  rw [hwindow, hf]
  exact hon

/-- A request that goes on has been engaged before. -/
theorem engaged_of_goes {phase' : FlightPhase} (h : Handler.Goes C p env f phase lb? phase')
    (hon : Flight.engaged { f with phase := phase' } = true) : Flight.engaged { f with phase } = true := by
  cases h with
  | stays => exact hon
  | unread | served | unrouted | allDown | selected | connected | unconnected | replied | ended | gone => rfl

/-- A request asks the limiter once. -/
theorem Metered.arrive (h : Metered rps burst ip lo hi t0 past s l) (hknown : Known past s) (hrps : 0 < rps)
    (hburst : 0 ≤ burst) {k : Nat} {peer : IpAddr} {req : Request} {isTls : Bool}
    (hlater : ∀ u ∈ t0 :: times past, u ≤ env.now) (hfree : s.flights k = none)
    (henter : s.handler.enter C req isTls (s.handler.rateLimiter.isAllowed peer env.now).2 = .ok phase) :
    ∃ l', Metered rps burst ip lo hi t0 (past ++ [.arrive k peer req isTls env])
      ⟨{ s.handler with rateLimiter := (s.handler.rateLimiter.isAllowed peer env.now).1 },
        s.flights.insert k ⟨peer, req, isTls, phase⟩⟩ l' := by
  obtain ⟨l', hl'⟩ : ∃ l', l.call (peer, env.now) = some l' := ⟨_, if_neg (not_lt.mpr (h.clock _ hlater))⟩
  have harrivals : arrivals (past ++ [.arrive k peer req isTls env]) = arrivals past ++ [⟨k, peer, env.now⟩] :=
    arrivals_append ..
  refine ⟨l', h.lawful.call hrps hburst hl', ?_, fun t ht => ?_, ?_⟩
  · rw [Limiting.limiter_call hl', h.limiter]
  · rw [(Limiting.clock_call hl').2]
    refine ht _ (List.mem_cons_of_mem _ ?_)
    rw [times, harrivals, List.map_append]
    exact List.mem_append_right _ List.mem_cons_self
  · have hadmitted : Flight.engaged ⟨peer, req, isTls, phase⟩ = true →
        (l.limiter.isAllowed peer env.now).2 = true := by
      intro hon
      obtain ⟨r, rfl⟩ | ⟨hallowed, -⟩ := Handler.enter_cases henter
      · cases hon
      · rw [h.limiter]
        exact hallowed
    have hbefore : (arrivals past).countP (fun a => decide (a.peer = ip ∧ lo ≤ a.now ∧ a.now ≤ hi) &&
        (s.flights.insert k ⟨peer, req, isTls, phase⟩ a.number).any Flight.engaged) = s.engagedIn past ip lo hi := by
      refine List.countP_congr fun a ha => ?_
      have hne : a.number ≠ k := fun hk => hknown.fresh hfree (hk ▸ List.mem_map_of_mem ha)
      rw [DashMap.insert_other _ _ hne]
    have hle := h.bound
    have htimes : l'.admittedTimes ip = _ := Limiting.admittedTimes_call hl'
    unfold engagedIn at hbefore ⊢
    unfold Limiting.admittedIn at hle ⊢
    rw [harrivals, List.countP_append, List.countP_singleton, hbefore]
    simp only [DashMap.insert_same, Option.any_some]
    rw [htimes]
    by_cases hcount : (decide (peer = ip ∧ lo ≤ env.now ∧ env.now ≤ hi) &&
        Flight.engaged ⟨peer, req, isTls, phase⟩) = true
    · obtain ⟨hwindow, hon⟩ := Bool.and_eq_true_iff.mp hcount
      obtain ⟨hip, hin⟩ := of_decide_eq_true hwindow
      rw [if_pos hcount, if_pos ⟨hip, hadmitted hon⟩, TokenBucket.countIn_cons, if_pos hin]
      exact Nat.add_le_add_right hle 1
    · rw [if_neg hcount]
      refine hle.trans ?_
      split
      · rw [TokenBucket.countIn_cons]
        exact Nat.le_add_right _ _
      · exact Nat.le_refl _

theorem Metered.step (h : Metered rps burst ip lo hi t0 past s l) (hknown : Known past s) (hrps : 0 < rps)
    (hburst : 0 ≤ burst) (htimes : (t0 :: times (past ++ [e])).Pairwise (· ≤ ·)) (hs : s.step C e = some s') :
    ∃ l', Metered rps burst ip lo hi t0 (past ++ [e]) s' l' := by
  cases moves_iff.mp hs with
  | @arrived k peer req isTls env phase hfree henter =>
    refine h.arrive hknown hrps hburst (fun u hu => ?_) hfree henter
    have hsplit : t0 :: times (past ++ [.arrive k peer req isTls env]) = (t0 :: times past) ++ [env.now] := by
      rw [times, arrivals_append, List.map_append]
      rfl
    rw [hsplit] at htimes
    exact (List.pairwise_append.mp htimes).2.2 u hu _ List.mem_cons_self
  | @gone k env f lb? phase hf hgo =>
    refine ⟨l, h.quiet rfl rfl fun j f' hj hon => ?_⟩
    by_cases hk : j = k
    · subst hk
      obtain rfl : { f with phase } = f' := by simpa using hj
      exact ⟨f, hf, engaged_of_goes (Handler.goes_of_go hgo) hon⟩
    · exact ⟨f', by simpa [DashMap.insert_other _ _ hk] using hj, hon⟩
  | @cancelled k f hf hopen =>
    refine ⟨l, h.quiet rfl rfl fun j f' hj hon => ?_⟩
    by_cases hk : j = k
    · subst hk
      refine ⟨f, hf, ?_⟩
      unfold Flight.engaged
      cases hphase : f.phase with
      | answered => rw [hphase] at hopen; cases hopen
      | reading | routing | connecting | sending | ending | dropped => rfl
    · exact ⟨f', by simpa [DashMap.insert_other _ _ hk] using hj, hon⟩
  | checked => exact ⟨l, h.quiet rfl rfl fun j f' hj hon => ⟨f', hj, hon⟩⟩

/-- **The rate of service.** Let requests come in the order of their clock readings, with a
limit of `rps`. In no window of time are more than `burst` requests of an address and `rps`
for each second let through, to be passed on to backends or answered from files of whatever
domains; all others get their answer from the proxy itself. -/
theorem engaged_rate {rps burst : UInt32} (hrps : 0 < rps) (hp : p.rateLimiter = .new rps burst)
    (htimes : (times es).Pairwise (· ≤ ·)) (hrun : exec (step C) ⟨p, .empty⟩ es = some s) (ip : IpAddr)
    {lo hi : Rat} (hlh : lo ≤ hi) : (s.engagedIn es ip lo hi : Rat) ≤ burst.toNat + rps.toNat * (hi - lo) := by
  have hpos : (0 : Rat) < rps.toNat := by exact_mod_cast UInt32.lt_iff_toNat_lt.mp hrps
  have hburst : (0 : Rat) ≤ burst.toNat := by exact_mod_cast Nat.zero_le _
  obtain ⟨t0, ht0⟩ : ∃ t0, ∀ u ∈ times es, t0 ≤ u := by
    cases hts : times es with
    | nil => exact ⟨0, nofun⟩
    | cons u us =>
      rw [hts] at htimes
      exact ⟨u, List.forall_mem_cons.mpr ⟨le_rfl, (List.pairwise_cons.mp htimes).1⟩⟩
  have hstart : Metered rps.toNat burst.toNat ip lo hi t0 [] ⟨p, .empty⟩ (.startAt rps burst t0) :=
    ⟨Limiting.lawful_startAt rps burst t0 ip, hp.symm, fun t ht => ht t0 List.mem_cons_self, Nat.zero_le _⟩
  -- the readings of a past are in order as well
  have hmetered := exec_inv_past (I := fun past m => (t0 :: times past).Pairwise (· ≤ ·) → Known past m ∧
      ∃ l, Metered rps.toNat burst.toNat ip lo hi t0 past m l) (fun past m e m' h hs hts => by
    have hbefore : (t0 :: times past).Pairwise (· ≤ ·) := by
      rw [times, arrivals_append, List.map_append, ← List.cons_append] at hts
      exact (List.pairwise_append.mp hts).1
    obtain ⟨hknown, l, hl⟩ := h hbefore
    exact ⟨hknown.step hs, hl.step hknown hpos hburst hts hs⟩) (fun _ => ⟨.start p, _, hstart⟩) hrun
  obtain ⟨-, l, hl⟩ := hmetered (List.pairwise_cons.mpr ⟨ht0, htimes⟩)
  have hwindow := (hl.lawful.bucketOf hpos.le hburst (le_refl l.clock)).1.window lo hi hlh
  have hbound : (s.engagedIn es ip lo hi : Rat) ≤ l.admittedIn ip lo hi := by exact_mod_cast hl.bound
  exact hbound.trans hwindow

/-- Two requests at once, where there is one token. -/
theorem engaged_rate_one_token :
    ∃ s, exec (step .sample) ⟨{ Handler.single "h" { backends := ["http://a"] } with rateLimiter := .new 1 1 }, .empty⟩
        [.get 0 1 "h", .get 1 1 "h", .on 0, .on 0] = some s ∧
      s.engagedIn [.get 0 1 "h", .get 1 1 "h", .on 0, .on 0] (.v4 1) 0 0 = 1 ∧
      (s.engagedIn [.get 0 1 "h", .get 1 1 "h", .on 0, .on 0] (.v4 1) 0 0 : Rat) ≤
        (1 : UInt32).toNat + (1 : UInt32).toNat * (0 - 0) := by
  have hruns : (exec (step .sample)
      ⟨{ Handler.single "h" { backends := ["http://a"] } with rateLimiter := .new 1 1 }, .empty⟩
      [.get 0 1 "h", .get 1 1 "h", .on 0, .on 0]).map
        (·.engagedIn [.get 0 1 "h", .get 1 1 "h", .on 0, .on 0] (.v4 1) 0 0) = some 1 := by decide +kernel
  obtain ⟨s, hs, hengaged⟩ := Option.map_eq_some_iff.mp hruns
  exact ⟨s, hs, hengaged, engaged_rate (by decide) rfl (by decide +kernel) hs (.v4 1) (le_refl (0 : Rat))⟩

end Traffic

end Curf
