import Curf.Proxy.InFlight

/-!
# Requests that are not interrupted

A request in flight that goes on and on while everything else waits does what `handle`
does (`exec_handle`). The runs of `Serving`, in which one request is handled after the
other, are therefore runs of `Traffic` (`serving_embeds`).
-/

namespace Curf

open Lib

namespace Traffic

variable {C : Crates} {s s' t : Traffic}

/-- The request `k` goes on until it is at `t`, everything else waiting. -/
def Reaches (C : Crates) (k : Nat) (env : Environment) (s t : Traffic) : Prop :=
  ∃ n, exec (step C) s (List.replicate n (.go k env)) = some t

theorem Reaches.refl (k : Nat) (env : Environment) (s : Traffic) : Reaches C k env s s := ⟨0, rfl⟩

/-- The request `k` waits in the phase `phase`. -/
def waiting (flights : DashMap Nat Flight) (k : Nat) (f : Flight) (p : Handler) (phase : FlightPhase) : Traffic :=
  ⟨p, flights.insert k { f with phase }⟩

variable {flights : DashMap Nat Flight} {k : Nat} {f : Flight} {phase phase' : FlightPhase} {p : Handler}
  {env : Environment} {lb? : Option LoadBalancer}

theorem Reaches.step (hgo : p.go C env { f with phase } = .ok (lb?, phase'))
    (h : Reaches C k env (waiting flights k f (balance p (f.host C) lb?) phase') t) :
    Reaches C k env (waiting flights k f p phase) t := by
  obtain ⟨n, hn⟩ := h
  refine ⟨n + 1, exec_cons.mpr ⟨_, moves_iff.mpr (.gone (DashMap.insert_same ..) hgo), ?_⟩⟩
  rw [← hn]
  simp only [waiting, DashMap.insert_eq_set, DashMap.set_set]
  rfl

theorem go_unread (hstatic : p.serveStatic C env f.req = .ok none) :
    p.go C env { f with phase := .reading } = .ok (p.lbManager (f.host C), .routing .http) := by
  simp only [Handler.go, hstatic, Flight.host]

theorem go_served {resp r : Response} (hstatic : p.serveStatic C env f.req = .ok (some resp))
    (hr : injectExtraHeaders C resp (f.host C) p.domainConfigs = .ok r) :
    p.go C env { f with phase := .reading } = .ok (p.lbManager (f.host C), .answered r (some .staticFile)) := by
  unfold Flight.host at hr
  simp only [Handler.go, hstatic, Flight.host, hr, Except.map]

theorem go_unrouted {kind : RequestKind} {r : Response} (hlb : p.lbManager (f.host C) = none)
    (hr : Handler.badGateway C kind = .ok r) :
    p.go C env { f with phase := .routing kind } = .ok (none, .answered r none) := by
  unfold Flight.host at hlb
  simp only [Handler.go, Flight.host, hlb, hr, Except.map]

theorem go_allDown {kind : RequestKind} {r : Response} {lb lb' : LoadBalancer} (hlb : p.lbManager (f.host C) = some lb)
    (hsel : lb.selectChecked (some f.peer) env.lbNow = .ok (none, lb')) (hr : Handler.badGateway C kind = .ok r) :
    p.go C env { f with phase := .routing kind } = .ok (some lb', .answered r none) := by
  unfold Flight.host at hlb
  simp only [Handler.go, Flight.host, hlb, hsel, hr, Except.map]

theorem go_selected {kind : RequestKind} {lb lb' : LoadBalancer} {url : String} {i : Nat}
    (hlb : p.lbManager (f.host C) = some lb)
    (hsel : lb.selectChecked (some f.peer) env.lbNow = .ok (some (url, i), lb')) :
    p.go C env { f with phase := .routing kind } = .ok (some lb', .connecting kind url i) := by
  unfold Flight.host at hlb
  simp only [Handler.go, Flight.host, hlb, hsel]

/-- What `forward` does to the load balancer for a reply. -/
def onReply : RequestKind → LoadBalancer → String → LoadBalancer
  | .http => .success
  | .websocket => fun lb _ => lb

/-- The guard is dropped, and the request answered. -/
theorem reaches_ending {kind : RequestKind} {lb : LoadBalancer} {i : Nat} {x : Option Exchange} {resp : Response}
    (hresp : p.relay C (f.host C) kind (resultOf x) = .ok resp) :
    Reaches C k env (waiting flights k f (balance p (f.host C) (some lb)) (.ending kind i x))
      (waiting flights k f { p with lbManager := p.lbManager.insert (f.host C) (lb.dropGuard i) }
        (.answered resp (x.map .backend))) := by
  have hgo : (balance p (f.host C) (some lb)).go C env { f with phase := .ending kind i x } =
      .ok (some (lb.dropGuard i), .answered resp (x.map .backend)) := by
    show (p.relay C (f.host C) kind (resultOf x)).map _ = _
    rw [hresp]
    simp [Except.map, Flight.host]
  refine .step hgo ?_
  rw [balance_balance, balance, DashMap.insert_eq_set]
  exact .refl ..

/-- There is no exchange with the backend. -/
theorem reaches_failed {kind : RequestKind} {lb : LoadBalancer} {url : String} {i : Nat} {resp : Response}
    (hgo : (balance p (f.host C) (some lb)).go C env { f with phase := .connecting kind url i } =
      .ok (some lb, .ending kind i none))
    (hresp : p.relay C (f.host C) kind none = .ok resp) :
    Reaches C k env (waiting flights k f (balance p (f.host C) (some lb)) (.connecting kind url i))
      (waiting flights k f { p with lbManager := p.lbManager.insert (f.host C) (lb.dropGuard i) }
        (.answered resp none)) := by
  refine .step hgo ?_
  rw [balance_balance]
  exact reaches_ending (x := none) hresp

/-- The request is sent. -/
theorem reaches_sending {kind : RequestKind} {lb : LoadBalancer} {url : String} {i : Nat} {addr : Text}
    {sent : Request} {reply : Option Response} {resp : Response} (hreply : env.network.send addr sent = reply)
    (hresp : p.relay C (f.host C) kind reply = .ok resp) :
    Reaches C k env (waiting flights k f (balance p (f.host C) (some lb)) (.sending kind url i addr sent))
      (waiting flights k f
        { p with
          lbManager := p.lbManager.insert (f.host C) ((if reply.isSome then onReply kind lb url else lb).dropGuard i) }
        (.answered resp (some (.backend ⟨addr, sent, reply⟩)))) := by
  have hgo : (balance p (f.host C) (some lb)).go C env { f with phase := .sending kind url i addr sent } =
      .ok (some (if reply.isSome then onReply kind lb url else lb), .ending kind i (some ⟨addr, sent, reply⟩)) := by
    cases kind <;> cases reply <;> simp [Handler.go, hreply, onReply, Flight.host]
  refine .step hgo ?_
  rw [balance_balance]
  exact reaches_ending (x := some ⟨addr, sent, reply⟩) hresp

/-- A request that is not interrupted is forwarded. -/
theorem reaches_forward (kind : RequestKind) {fw : Forwarded} {resp : Response}
    (hfw : forward C env.network env.lbNow p.lbManager f.req (f.host C) f.peer (onReply kind) = .ok fw)
    (hresp : p.relay C (f.host C) kind (resultOf fw.exchange) = .ok resp) :
    Reaches C k env (waiting flights k f p (.routing kind))
      (waiting flights k f { p with lbManager := fw.lbManager }
        (.answered resp (fw.exchange.map .backend))) := by
  unfold forward at hfw
  cases hlb : p.lbManager (f.host C) with
  | none =>
    rw [hlb] at hfw
    cases hfw
    replace hresp : Handler.badGateway C kind = .ok resp := by cases kind <;> exact hresp
    refine .step (go_unrouted hlb hresp) ?_
    rw [balance, ← hlb, DashMap.set_self]
    exact .refl ..
  | some lb =>
    rw [hlb] at hfw
    dsimp only at hfw
    cases hsel : lb.selectChecked (some f.peer) env.lbNow with
    | error e => rw [hsel] at hfw; cases hfw
    | ok selected =>
      rw [hsel] at hfw
      obtain ⟨picked, lb'⟩ := selected
      cases picked with
      | none =>
        cases hfw
        replace hresp : Handler.badGateway C kind = .ok resp := by cases kind <;> exact hresp
        exact .step (go_allDown hlb hsel hresp) (.refl ..)
      | some picked =>
        obtain ⟨url, i⟩ := picked
        dsimp only at hfw
        refine .step (go_selected hlb hsel) ?_
        cases huri : C.parseUri url.toList with
        | none =>
          rw [huri] at hfw
          cases hfw
          exact reaches_failed (by simp [Handler.go, huri, Flight.host]) hresp
        | some uri =>
          cases htarget : C.parseUri (f.req.pathAndQuery.getD ['/']) with
          | none =>
            rw [huri, htarget] at hfw
            cases hfw
            exact reaches_failed (by simp [Handler.go, huri, htarget, Flight.host]) hresp
          | some target =>
            rw [huri, htarget] at hfw
            dsimp only at hfw
            cases hsent : addForwardingHeaders C { f.req with pathAndQuery := some (f.req.pathAndQuery.getD ['/']) }
                f.peer (f.host C) with
            | error e => rw [hsent] at hfw; cases hfw
            | ok sent =>
              rw [hsent] at hfw
              dsimp only at hfw
              have hgo : (balance p (f.host C) (some lb')).go C env { f with phase := .connecting kind url i } =
                  .ok (some lb', if env.network.connect (backendAddr uri) then
                    .sending kind url i (backendAddr uri) sent else .ending kind i none) := by
                unfold Flight.host at hsent
                simp [Handler.go, huri, htarget, hsent, Flight.host]
              by_cases hconn : env.network.connect (backendAddr uri) = false
              · rw [if_pos hconn] at hfw
                cases hfw
                exact reaches_failed (hgo.trans (by rw [hconn]; rfl)) hresp
              · rw [if_neg hconn] at hfw
                rw [Bool.not_eq_false] at hconn
                rw [hconn, if_pos rfl] at hgo
                refine .step hgo ?_
                rw [balance_balance]
                cases hreply : env.network.send (backendAddr uri) sent with
                | none => rw [hreply] at hfw; cases hfw; exact reaches_sending hreply hresp
                | some reply => rw [hreply] at hfw; cases hfw; exact reaches_sending hreply hresp

theorem ok_of_answer {service : Option Service} {r : Except Panic Response} {out : Outcome}
    (h : p.answer service r = .ok out) : r = .ok out.response ∧ out.handler = p ∧ out.service = service := by
  cases r with
  | error e => cases h
  | ok resp => cases h; exact ⟨rfl, rfl, rfl⟩

theorem resultOf_forward {net : Network} {now : UInt64} {lbs : DashMap Text LoadBalancer} {req : Request}
    {host : Text} {peer : IpAddr} {g : LoadBalancer → String → LoadBalancer} {fw : Forwarded}
    (hfw : forward C net now lbs req host peer g = .ok fw) : fw.result.toOption = resultOf fw.exchange := by
  obtain ⟨herror, hok⟩ := @forward_spec C net now lbs req host peer g
  by_cases hfull : (destination C now lbs req host peer).isSome = true ∧ ¬ FitsForwarding C req host peer
  · rw [herror hfull] at hfw
    cases hfw
  · obtain ⟨fw', hfw', hx, hres⟩ := hok hfull
    rw [hfw'] at hfw
    cases hfw
    rw [hres, hx]

/-- A request that goes over HTTP. -/
theorem reaches_proxied {fw : Forwarded} {out : Outcome}
    (hfw : proxyHttp C env.network env.lbNow p.lbManager f.req (f.host C) f.peer = .ok fw)
    (h : (match fw.result with
      | .ok resp => Handler.answer { p with lbManager := fw.lbManager } (fw.exchange.map .backend)
          (injectExtraHeaders C resp (f.host C) p.domainConfigs)
      | .error _ => Handler.answer { p with lbManager := fw.lbManager } (fw.exchange.map .backend)
          (htmlError C 502 "Bad Gateway" "The upstream server is unreachable.")) = .ok out) :
    Reaches C k env (waiting flights k f p (.routing .http))
      (waiting flights k f out.handler (.answered out.response out.service)) := by
  have hresult := resultOf_forward hfw
  cases hr : fw.result with
  | error e =>
    rw [hr] at h hresult
    obtain ⟨hresp, hhandler, hservice⟩ := ok_of_answer h
    rw [hhandler, hservice]
    exact reaches_forward .http hfw (by rw [← hresult]; exact hresp)
  | ok reply =>
    rw [hr] at h hresult
    obtain ⟨hresp, hhandler, hservice⟩ := ok_of_answer h
    rw [hhandler, hservice]
    exact reaches_forward .http hfw (by rw [← hresult]; exact hresp)

/-- A request for an upgrade. -/
theorem reaches_upgraded {fw : Forwarded} {out : Outcome}
    (hfw : proxyWebsocket C env.network env.lbNow p.lbManager f.req (f.host C) f.peer = .ok fw)
    (h : (match fw.result with
      | .ok resp => Handler.answer { p with lbManager := fw.lbManager } (fw.exchange.map .backend) (.ok resp)
      | .error _ => Handler.answer { p with lbManager := fw.lbManager } (fw.exchange.map .backend)
          (errorResponse C 502 "WebSocket proxy error")) = .ok out) :
    Reaches C k env (waiting flights k f p (.routing .websocket))
      (waiting flights k f out.handler (.answered out.response out.service)) := by
  unfold proxyWebsocket at hfw
  cases hforward : forward C env.network env.lbNow p.lbManager f.req (f.host C) f.peer (onReply .websocket) with
  | error e =>
    rw [show (fun lb _ => lb : LoadBalancer → String → LoadBalancer) = onReply .websocket from rfl, hforward] at hfw
    cases hfw
  | ok fw' =>
    rw [show (fun lb _ => lb : LoadBalancer → String → LoadBalancer) = onReply .websocket from rfl, hforward] at hfw
    have hresult := resultOf_forward hforward
    dsimp only at hfw
    cases hr : fw'.result with
    | error e =>
      rw [hr] at hfw hresult
      cases hfw
      rw [hr] at h
      obtain ⟨hresp, hhandler, hservice⟩ := ok_of_answer h
      rw [hhandler, hservice]
      exact reaches_forward .websocket hforward (by rw [← hresult]; exact hresp)
    | ok reply =>
      rw [hr] at hfw hresult
      dsimp only at hfw
      by_cases hstatus : reply.status ≠ 101
      · rw [if_pos hstatus] at hfw
        cases hfw
        obtain ⟨hresp, hhandler, hservice⟩ := ok_of_answer h
        rw [hhandler, hservice]
        have hrelay : p.relay C (f.host C) .websocket (resultOf fw'.exchange) = .ok out.response := by
          rw [← hresult]
          exact (if_pos hstatus).trans hresp
        have hway : Reaches C k env (waiting flights k f p (.routing .websocket)) _ :=
          reaches_forward .websocket hforward hrelay
        exact hway
      · rw [if_neg hstatus] at hfw
        cases hbuild : Response.build C 101 [] [] with
        | error e => rw [hbuild] at hfw; cases hfw
        | ok resp =>
          rw [hbuild] at hfw
          cases hfw
          obtain ⟨hresp, hhandler, hservice⟩ := ok_of_answer h
          rw [hhandler, hservice]
          have hrelay : p.relay C (f.host C) .websocket (resultOf fw'.exchange) = .ok out.response := by
            rw [← hresult]
            exact (if_neg hstatus).trans (hbuild.trans hresp)
          have hway : Reaches C k env (waiting flights k f p (.routing .websocket)) _ :=
            reaches_forward .websocket hforward hrelay
          exact hway

/-- **Without interruption** a request goes the way of `handle`. -/
theorem exec_handle {peer : IpAddr} {req : Request} {isTls : Bool} {out : Outcome} (hfree : s.flights k = none)
    (h : s.handler.handle C env peer req isTls = .ok out) :
    ∃ n, exec (step C) s (.arrive k peer req isTls env :: List.replicate n (.go k env)) =
      some ⟨out.handler, s.flights.insert k ⟨peer, req, isTls, .answered out.response out.service⟩⟩ := by
  let f : Flight := ⟨peer, req, isTls, .reading⟩
  let p : Handler := { s.handler with rateLimiter := (s.handler.rateLimiter.isAllowed peer env.now).1 }
  suffices hway : ∃ phase, s.handler.enter C req isTls (s.handler.rateLimiter.isAllowed peer env.now).2 = .ok phase ∧
      Reaches C k env (waiting s.flights k f p phase)
        (waiting s.flights k f out.handler (.answered out.response out.service)) by
    obtain ⟨phase, henter, n, hn⟩ := hway
    exact ⟨n, exec_cons.mpr ⟨_, moves_iff.mpr (.arrived hfree henter), hn⟩⟩
  -- an answer that is given at once
  have hanswered {r : Except Panic Response} (h : p.answer none r = .ok out) :
      ∃ phase, r.map (FlightPhase.answered · none) = .ok phase ∧
        Reaches C k env (waiting s.flights k f p phase)
          (waiting s.flights k f out.handler (.answered out.response out.service)) := by
    obtain ⟨hresp, hhandler, hservice⟩ := ok_of_answer h
    rw [hhandler, hservice, hresp]
    exact ⟨_, rfl, .refl ..⟩
  unfold Handler.handle at h
  unfold Handler.enter
  dsimp only at h
  by_cases hlimit : (s.handler.rateLimiter.isAllowed peer env.now).2 = false
  · rw [if_pos hlimit] at h ⊢
    exact hanswered h
  · rw [if_neg hlimit, Handler.checkRequest_limiter] at h
    rw [if_neg hlimit]
    cases hcheck : s.handler.checkRequest C req with
    | error reason =>
      rw [hcheck] at h
      exact hanswered h
    | ok u =>
      rw [hcheck] at h
      dsimp only at h ⊢
      rw [Handler.redirects_limiter] at h
      by_cases hredirect : s.handler.redirects C req isTls = true
      · rw [if_pos hredirect] at h ⊢
        exact hanswered h
      · rw [if_neg hredirect] at h ⊢
        refine ⟨_, rfl, ?_⟩
        by_cases hws : isWebsocketUpgrade req = true
        · rw [if_pos hws] at h ⊢
          cases hfw : proxyWebsocket C env.network env.lbNow s.handler.lbManager req (hostOf C.caseTable req.headers)
              peer with
          | error e => rw [hfw] at h; cases h
          | ok fw =>
            rw [hfw] at h
            exact reaches_upgraded (p := p) (f := f) hfw h
        · rw [if_neg hws, Handler.serveStatic_limiter] at h
          rw [if_neg hws]
          cases hstatic : s.handler.serveStatic C env req with
          | error e => rw [hstatic] at h; cases h
          | ok served =>
            rw [hstatic] at h
            have hkept : balance p (f.host C) (p.lbManager (f.host C)) = p := by rw [balance, DashMap.set_self]
            cases served with
            | some resp =>
              obtain ⟨hresp, hhandler, hservice⟩ := ok_of_answer h
              rw [hhandler, hservice]
              refine .step (go_served (p := p) (f := f) hstatic hresp) ?_
              rw [hkept]
              exact .refl ..
            | none =>
              refine .step (go_unread (p := p) (f := f) hstatic) ?_
              rw [hkept]
              dsimp only at h
              cases hfw : proxyHttp C env.network env.lbNow s.handler.lbManager req (hostOf C.caseTable req.headers)
                  peer with
              | error e => rw [hfw] at h; cases h
              | ok fw =>
                rw [hfw] at h
                exact reaches_proxied (p := p) (f := f) hfw h

/-- A request with its answer. -/
def answeredFlight (a : Answered) : Flight :=
  ⟨a.call.peer, a.call.req, a.call.isTls, .answered a.response a.service⟩

theorem exec_serving {calls : List Call} {sv sv' : Serving} (hrun : exec (Serving.step C) sv calls = some sv')
    (hhandler : s.handler = sv.handler) (hflights : ∀ k, s.flights k = sv.log[k]?.map answeredFlight) :
    ∃ es s', exec (step C) s es = some s' ∧ s'.handler = sv'.handler ∧
      ∀ k, s'.flights k = sv'.log[k]?.map answeredFlight := by
  induction calls generalizing sv s with
  | nil => cases hrun; exact ⟨[], s, rfl, hhandler, hflights⟩
  | cons c calls ih =>
    obtain ⟨m, hm, hrun⟩ := exec_cons.mp hrun
    obtain ⟨out, hout, rfl⟩ := Serving.step_eq_some.mp hm
    have hfree : s.flights sv.log.length = none := by
      rw [hflights, List.getElem?_eq_none (Nat.le_refl _)]
      rfl
    rw [← hhandler] at hout
    obtain ⟨n, hn⟩ := exec_handle hfree hout
    obtain ⟨es, s', hes, hend⟩ := ih (s := ⟨out.handler, s.flights.insert sv.log.length
      (answeredFlight ⟨c, out.response, out.service⟩)⟩) hrun rfl fun k => by
        dsimp only
        by_cases hk : k = sv.log.length
        · subst hk
          simp
        · rw [DashMap.insert_other _ _ hk, hflights]
          by_cases hlt : k < sv.log.length
          · rw [List.getElem?_append_left hlt]
          · rw [List.getElem?_eq_none (by omega), List.getElem?_eq_none (by simp; omega)]
    exact ⟨_, s', exec_append.mpr ⟨_, hn, hes⟩, hend⟩

/-- **One after the other** is one of the ways in which requests come: every run in which
each is handled before the next one comes is a run of requests in flight, with the same
answers and the same handler at the end. -/
theorem serving_embeds {p : Handler} {calls : List Call} {sv : Serving}
    (hrun : exec (Serving.step C) ⟨p, []⟩ calls = some sv) :
    ∃ es s, exec (step C) ⟨p, .empty⟩ es = some s ∧ s.handler = sv.handler ∧
      ∀ k, s.flights k = sv.log[k]?.map answeredFlight :=
  exec_serving hrun rfl fun _ => rfl

/-- Two requests after each other, for two hosts. -/
theorem serving_embeds_two :
    ∃ es s f, exec (step .sample) ⟨.single "h" { backends := ["http://a"] }, .empty⟩ es = some s ∧
      s.flights 1 = some f ∧ f.peer = .v4 2 ∧ f.phase.isOver = true ∧ s.flights 2 = none := by
  obtain ⟨sv, hsv⟩ : ∃ sv, exec (Serving.step .sample) ⟨.single "h" { backends := ["http://a"] }, []⟩
    [.get 1 "h", .get 2 "g"] = some sv := ⟨_, rfl⟩
  obtain ⟨es, s, hes, -, hflights⟩ := serving_embeds hsv
  obtain ⟨a, ha, hpeer⟩ : ∃ a, sv.log[1]? = some a ∧ a.call.peer = .v4 2 := by cases hsv; exact ⟨_, rfl, rfl⟩
  have hnone : sv.log[2]? = none := by cases hsv; rfl
  refine ⟨es, s, answeredFlight a, hes, ?_, hpeer, rfl, ?_⟩
  · rw [hflights, ha]; rfl
  · rw [hflights, hnone]; rfl

end Traffic

end Curf
