import Curf.Proxy.Isolation
import Curf.Proxy.Requests

/-!
# Requests in flight

`handle` waits for files, for the connection to a backend and for its reply, and many
requests are in flight at once. `Traffic` is the handler with all of them: `enter` is
`handle` up to the first wait and `go` a request's way from one wait to the next, with one
access to the load balancer at most. `select` is one such access: the calls of it do not
overlap here (`SharedLeast`, `SharedCursor` and `SharedBreaker` take them apart). Health
checks come in between, and a request that is not over yet may be dropped with its connection.

`enter_cases`, `goes_of_go` and `moves_iff` say what each step can do.
-/
namespace Curf

open Lib

inductive FlightPhase where
  /-- The files of the host are asked for. -/
  | reading
  | routing (kind : RequestKind)
  /-- The backend in position `i`, with the URL `url`, is being connected to. -/
  | connecting (kind : RequestKind) (url : String) (i : Nat)
  | sending (kind : RequestKind) (url : String) (i : Nat) (addr : Text) (sent : Request)
  /-- The exchange is over, if it came to one. -/
  | ending (kind : RequestKind) (i : Nat) (x : Option Exchange)
  | answered (response : Response) (service : Option Service)
  /-- The client has gone, or the time of its connection is up. -/
  | dropped

namespace FlightPhase

/-- The position of the backend whose guard the request has. -/
def guardOf : FlightPhase → Option Nat
  | .connecting _ _ i | .sending _ _ i _ _ | .ending _ i _ => some i
  | .reading | .routing _ | .answered .. | .dropped => none

def isOver : FlightPhase → Bool
  | .answered .. | .dropped => true
  | .reading | .routing _ | .connecting .. | .sending .. | .ending .. => false

end FlightPhase

structure Flight where
  peer : IpAddr
  req : Request
  isTls : Bool
  phase : FlightPhase

/-- The host that the request is for. -/
def Flight.host (C : Crates) (f : Flight) : Text := hostOf C.caseTable f.req.headers

namespace Handler

variable (C : Crates) (p : Handler)

/-- What `handle` does with a request that the limiter has let through or not, before it
waits for something. -/
def enter (req : Request) (isTls allowed : Bool) : Except Panic FlightPhase :=
  if allowed = false then (errorResponse C 429 "Too Many Requests").map (.answered · none)
  else
    match p.checkRequest C req with
    | .error reason => (htmlError C 403 "Forbidden" reason).map (.answered · none)
    | .ok () =>
      if p.redirects C req isTls then (redirect C req).map (.answered · none)
      else .ok (if isWebsocketUpgrade req then .routing .websocket else .reading)

/-- The answer to a request that no backend has answered. -/
def badGateway : RequestKind → Except Panic Response
  | .http => htmlError C 502 "Bad Gateway" "The upstream server is unreachable."
  | .websocket => errorResponse C 502 "WebSocket proxy error"

/-- What is made of the reply of a backend. -/
def relay (host : Text) (kind : RequestKind) (reply : Option Response) : Except Panic Response :=
  match kind, reply with
  | .http, some reply => injectExtraHeaders C reply host p.domainConfigs
  | .websocket, some reply => if reply.status ≠ 101 then badGateway C .websocket else Response.build C 101 [] []
  | kind, none => badGateway C kind

/-- A request goes on until it waits again; the load balancer of its host comes along. -/
def go (env : Environment) (f : Flight) : Except Panic (Option LoadBalancer × FlightPhase) :=
  let lb? := p.lbManager (f.host C)
  match f.phase with
  | .reading =>
    match p.serveStatic C env f.req with
    | .error e => .error e
    | .ok none => .ok (lb?, .routing .http)
    | .ok (some resp) =>
      (injectExtraHeaders C resp (f.host C) p.domainConfigs).map fun r => (lb?, .answered r (some .staticFile))
  | .routing kind =>
    match lb? with
    | none => (badGateway C kind).map fun r => (none, .answered r none)
    | some lb =>
      match lb.selectChecked (some f.peer) env.lbNow with
      | .error e => .error e
      | .ok (none, lb) => (badGateway C kind).map fun r => (some lb, .answered r none)
      | .ok (some (url, i), lb) => .ok (some lb, .connecting kind url i)
  | .connecting kind url i =>
    match C.parseUri url.toList, C.parseUri (f.req.pathAndQuery.getD ['/']) with
    | some uri, some _ =>
      match addForwardingHeaders C { f.req with pathAndQuery := some (f.req.pathAndQuery.getD ['/']) } f.peer
          (f.host C) with
      | .error e => .error e
      | .ok sent =>
        .ok (lb?, if env.network.connect (backendAddr uri) then .sending kind url i (backendAddr uri) sent
          else .ending kind i none)
    | _, _ => .ok (lb?, .ending kind i none)
  | .sending kind url i addr sent =>
    let reply := env.network.send addr sent
    -- only `proxy_http` reports the success
    .ok (if kind = .http ∧ reply.isSome then lb?.map (·.success url) else lb?, .ending kind i (some ⟨addr, sent, reply⟩))
  | .ending kind i x =>
    (p.relay C (f.host C) kind (resultOf x)).map fun r => (lb?.map (·.dropGuard i), .answered r (x.map .backend))
  | .answered .. | .dropped => .ok (lb?, f.phase)

end Handler

/-! ## What a request can do -/

namespace Handler

variable {C : Crates} {p : Handler} {env : Environment} {f : Flight} {lb? : Option LoadBalancer} {phase : FlightPhase}

/-- A request is answered at once, or it is let in. -/
theorem enter_cases {req : Request} {isTls allowed : Bool} (h : p.enter C req isTls allowed = .ok phase) :
    (∃ r, phase = .answered r none) ∨
      (allowed = true ∧ p.checkRequest C req = .ok () ∧ p.redirects C req isTls = false ∧
        phase = if isWebsocketUpgrade req then .routing .websocket else .reading) := by
  have hanswered {r : Except Panic Response} (h : r.map (FlightPhase.answered · none) = .ok phase) :
      ∃ r, phase = .answered r none := by
    cases r with
    | error e => cases h
    | ok resp => cases h; exact ⟨resp, rfl⟩
  unfold enter at h
  split at h
  · exact .inl (hanswered h)
  · rename_i hallowed
    split at h
    · exact .inl (hanswered h)
    · rename_i hcheck
      split at h
      · exact .inl (hanswered h)
      · rename_i hredirect
        cases h
        exact .inr ⟨by simpa using hallowed, hcheck, by simpa using hredirect, rfl⟩

/-- The ways in which a request goes on from a phase, with the load balancer of its host
after it. -/
inductive Goes (C : Crates) (p : Handler) (env : Environment) (f : Flight) :
    FlightPhase → Option LoadBalancer → FlightPhase → Prop
  | unread (hstatic : p.serveStatic C env f.req = .ok none) :
      Goes C p env f .reading (p.lbManager (f.host C)) (.routing .http)
  | served {resp r : Response} (hstatic : p.serveStatic C env f.req = .ok (some resp))
      (hr : injectExtraHeaders C resp (f.host C) p.domainConfigs = .ok r) :
      Goes C p env f .reading (p.lbManager (f.host C)) (.answered r (some .staticFile))
  | unrouted {kind : RequestKind} {r : Response} (hlb : p.lbManager (f.host C) = none)
      (hr : badGateway C kind = .ok r) :
      Goes C p env f (.routing kind) none (.answered r none)
  | allDown {kind : RequestKind} {lb : LoadBalancer} {r : Response} (hlb : p.lbManager (f.host C) = some lb)
      (hsel : (lb.select (some f.peer) env.lbNow).1 = none) (hr : badGateway C kind = .ok r) :
      Goes C p env f (.routing kind) (some (lb.select (some f.peer) env.lbNow).2) (.answered r none)
  | selected {kind : RequestKind} {lb : LoadBalancer} {url : String} {i : Nat}
      (hlb : p.lbManager (f.host C) = some lb) (hsel : (lb.select (some f.peer) env.lbNow).1 = some (url, i)) :
      Goes C p env f (.routing kind) (some (lb.select (some f.peer) env.lbNow).2) (.connecting kind url i)
  | connected {kind : RequestKind} {url : String} {i : Nat} {uri : Uri} (huri : C.parseUri url.toList = some uri)
      (hconn : env.network.connect (backendAddr uri) = true) :
      Goes C p env f (.connecting kind url i) (p.lbManager (f.host C))
        (.sending kind url i (backendAddr uri) (forwardedRequest C f.req (f.host C) f.peer))
  | unconnected {kind : RequestKind} {url : String} {i : Nat} :
      Goes C p env f (.connecting kind url i) (p.lbManager (f.host C)) (.ending kind i none)
  | replied {kind : RequestKind} {url : String} {i : Nat} {addr : Text} {sent : Request} :
      Goes C p env f (.sending kind url i addr sent)
        (if kind = .http ∧ (env.network.send addr sent).isSome then (p.lbManager (f.host C)).map (·.success url)
          else p.lbManager (f.host C))
        (.ending kind i (some ⟨addr, sent, env.network.send addr sent⟩))
  | ended {kind : RequestKind} {i : Nat} {x : Option Exchange} {r : Response}
      (hr : p.relay C (f.host C) kind (resultOf x) = .ok r) :
      Goes C p env f (.ending kind i x) ((p.lbManager (f.host C)).map (·.dropGuard i))
        (.answered r (x.map .backend))
  | stays {r : Response} {service : Option Service} :
      Goes C p env f (.answered r service) (p.lbManager (f.host C)) (.answered r service)
  | gone : Goes C p env f .dropped (p.lbManager (f.host C)) .dropped

theorem goes_of_go (h : p.go C env f = .ok (lb?, phase)) : Goes C p env f f.phase lb? phase := by
  unfold Handler.go at h
  dsimp only at h
  cases hphase : f.phase with
  | reading =>
    rw [hphase] at h
    dsimp only at h
    cases hstatic : p.serveStatic C env f.req with
    | error e => rw [hstatic] at h; cases h
    | ok served =>
      rw [hstatic] at h
      cases served with
      | none => cases h; exact .unread hstatic
      | some resp =>
        dsimp only at h
        cases hr : injectExtraHeaders C resp (f.host C) p.domainConfigs with
        | error e => rw [hr] at h; cases h
        | ok r => rw [hr] at h; cases h; exact .served hstatic hr
  | routing kind =>
    rw [hphase] at h
    dsimp only at h
    cases hlb : p.lbManager (f.host C) with
    | none =>
      rw [hlb] at h
      dsimp only at h
      cases hr : badGateway C kind with
      | error e => rw [hr] at h; cases h
      | ok r => rw [hr] at h; cases h; exact .unrouted hlb hr
    | some lb =>
      rw [hlb] at h
      dsimp only at h
      rw [LoadBalancer.selectChecked_eq] at h
      cases hsel : (lb.select (some f.peer) env.lbNow).1 with
      | none =>
        rw [show lb.select (some f.peer) env.lbNow = (none, (lb.select (some f.peer) env.lbNow).2) from
          Prod.ext hsel rfl] at h
        dsimp only at h
        cases hr : badGateway C kind with
        | error e => rw [hr] at h; cases h
        | ok r => rw [hr] at h; cases h; exact .allDown hlb hsel hr
      | some picked =>
        obtain ⟨url, i⟩ := picked
        rw [show lb.select (some f.peer) env.lbNow = (some (url, i), (lb.select (some f.peer) env.lbNow).2) from
          Prod.ext hsel rfl] at h
        cases h
        exact .selected hlb hsel
  | connecting kind url i =>
    rw [hphase] at h
    dsimp only at h
    cases huri : C.parseUri url.toList with
    | none => rw [huri] at h; cases h; exact .unconnected
    | some uri =>
      cases htarget : C.parseUri (f.req.pathAndQuery.getD ['/']) with
      | none => rw [huri, htarget] at h; cases h; exact .unconnected
      | some target =>
        rw [huri, htarget] at h
        dsimp only at h
        rw [addForwardingHeaders_eq] at h
        by_cases hfits : FitsForwarding C f.req (f.host C) f.peer
        · rw [if_pos hfits] at h
          dsimp only at h
          by_cases hconn : env.network.connect (backendAddr uri) = true
          · rw [if_pos hconn] at h; cases h; exact .connected huri hconn
          · rw [if_neg hconn] at h; cases h; exact .unconnected
        · rw [if_neg hfits] at h; cases h
  | sending kind url i addr sent => rw [hphase] at h; cases h; exact .replied
  | ending kind i x =>
    rw [hphase] at h
    dsimp only at h
    cases hr : p.relay C (f.host C) kind (resultOf x) with
    | error e => rw [hr] at h; cases h
    | ok r => rw [hr] at h; cases h; exact .ended hr
  | answered r service => rw [hphase] at h; cases h; exact .stays
  | dropped => rw [hphase] at h; cases h; exact .gone

end Handler

/-- The handler and the requests that it has been given, each under a number of its own. -/
structure Traffic where
  handler : Handler
  flights : DashMap Nat Flight

inductive TrafficEvent where
  | arrive (k : Nat) (peer : IpAddr) (req : Request) (isTls : Bool) (env : Environment)
  | go (k : Nat) (env : Environment)
  | cancel (k : Nat)
  /-- The load balancer of `host` hears of a check. -/
  | health (host : Text) (url : String) (ok : Bool) (now : UInt64)

/-- A request of the examples, under the number `k`. -/
def TrafficEvent.get (k : Nat) (ip : BitVec 32) (host : String) : TrafficEvent :=
  .arrive k (.v4 ip) (.getRoot host []) false (Handler.replying ⟨200, [], []⟩)

/-- It goes on. -/
def TrafficEvent.on (k : Nat) : TrafficEvent := .go k (Handler.replying ⟨200, [], []⟩)

namespace Traffic

/-- The handler with another load balancer for `host`. -/
def balance (p : Handler) (host : Text) (lb? : Option LoadBalancer) : Handler :=
  { p with lbManager := p.lbManager.set host lb? }

@[simp] theorem balance_lbManager (p : Handler) (host : Text) (lb? : Option LoadBalancer) :
    (balance p host lb?).lbManager = p.lbManager.set host lb? := rfl

@[simp] theorem balance_balance (p : Handler) (host : Text) (lb? lb?' : Option LoadBalancer) :
    balance (balance p host lb?) host lb?' = balance p host lb?' := by
  simp [balance]

/-- A panic ends the process. -/
def step (C : Crates) (s : Traffic) : TrafficEvent → Option Traffic
  | .arrive k peer req isTls env =>
    match s.flights k with
    | some _ => none
    | none =>
      let allowed := s.handler.rateLimiter.isAllowed peer env.now
      match s.handler.enter C req isTls allowed.2 with
      | .error _ => none
      | .ok phase =>
        some ⟨{ s.handler with rateLimiter := allowed.1 }, s.flights.insert k ⟨peer, req, isTls, phase⟩⟩
  | .go k env =>
    match s.flights k with
    | none => none
    | some f =>
      match s.handler.go C env f with
      | .error _ => none
      | .ok (lb?, phase) => some ⟨balance s.handler (f.host C) lb?, s.flights.insert k { f with phase }⟩
  | .cancel k =>
    match s.flights k with
    | none => none
    | some f =>
      if f.phase.isOver then none
      else
        let lb? := s.handler.lbManager (f.host C)
        some ⟨balance s.handler (f.host C) (f.phase.guardOf.elim lb? fun i => lb?.map (·.dropGuard i)),
          s.flights.insert k { f with phase := .dropped }⟩
  | .health host url ok now =>
    some { s with
      handler := balance s.handler host ((s.handler.lbManager host).map fun lb =>
        if ok then lb.success url else lb.failure url now) }

/-- What an event can do. -/
inductive Moves (C : Crates) (s : Traffic) : TrafficEvent → Traffic → Prop
  | arrived {k : Nat} {peer : IpAddr} {req : Request} {isTls : Bool} {env : Environment} {phase : FlightPhase}
      (hfree : s.flights k = none)
      (henter : s.handler.enter C req isTls (s.handler.rateLimiter.isAllowed peer env.now).2 = .ok phase) :
      Moves C s (.arrive k peer req isTls env)
        ⟨{ s.handler with rateLimiter := (s.handler.rateLimiter.isAllowed peer env.now).1 },
          s.flights.insert k ⟨peer, req, isTls, phase⟩⟩
  | gone {k : Nat} {env : Environment} {f : Flight} {lb? : Option LoadBalancer} {phase : FlightPhase}
      (hf : s.flights k = some f) (hgo : s.handler.go C env f = .ok (lb?, phase)) :
      Moves C s (.go k env) ⟨balance s.handler (f.host C) lb?, s.flights.insert k { f with phase }⟩
  | cancelled {k : Nat} {f : Flight} (hf : s.flights k = some f) (hopen : f.phase.isOver = false) :
      Moves C s (.cancel k)
        ⟨balance s.handler (f.host C) (f.phase.guardOf.elim (s.handler.lbManager (f.host C)) fun i =>
            (s.handler.lbManager (f.host C)).map (·.dropGuard i)),
          s.flights.insert k { f with phase := .dropped }⟩
  | checked {host : Text} {url : String} {ok : Bool} {now : UInt64} :
      Moves C s (.health host url ok now) { s with
        handler := balance s.handler host ((s.handler.lbManager host).map fun lb =>
          if ok then lb.success url else lb.failure url now) }

variable {C : Crates} {s s' t : Traffic} {e : TrafficEvent}

theorem moves_iff : s.step C e = some s' ↔ Moves C s e s' := by
  constructor
  · intro hs
    cases e with
    | arrive k peer req isTls env =>
      simp only [step] at hs
      split at hs
      · cases hs
      · rename_i hfree
        split at hs
        · cases hs
        · rename_i henter; cases hs; exact .arrived hfree henter
    | go k env =>
      simp only [step] at hs
      split at hs
      · cases hs
      · rename_i f hf
        split at hs
        · cases hs
        · rename_i lb? phase hgo; cases hs; exact .gone hf hgo
    | cancel k =>
      simp only [step] at hs
      split at hs
      · cases hs
      · rename_i f hf
        split at hs
        · cases hs
        · rename_i hopen; cases hs; exact .cancelled hf (Bool.eq_false_iff.mpr hopen)
    | health host url ok now => cases hs; exact .checked
  · intro h
    cases h with
    | arrived hfree henter => simp only [step, hfree, henter]
    | gone hf hgo => simp only [step, hf, hgo]
    | cancelled hf hopen => simp [step, hf, hopen]
    | checked => rfl

/-! ## The requests of a run -/

/-- The number, the client and the time of a request. -/
structure Arrival where
  number : Nat
  peer : IpAddr
  now : Rat

def arrival : TrafficEvent → Option Arrival
  | .arrive k peer _ _ env => some ⟨k, peer, env.now⟩
  | .go .. | .cancel _ | .health .. => none

def arrivals (es : List TrafficEvent) : List Arrival := es.filterMap arrival

def numbers (es : List TrafficEvent) : List Nat := (arrivals es).map (·.number)

theorem arrivals_append (es fs : List TrafficEvent) : arrivals (es ++ fs) = arrivals es ++ arrivals fs :=
  List.filterMap_append

theorem arrivals_quiet {es : List TrafficEvent} (he : arrival e = none) : arrivals (es ++ [e]) = arrivals es := by
  rw [arrivals_append]
  simp [arrivals, he]

theorem numbers_quiet {es : List TrafficEvent} (he : arrival e = none) : numbers (es ++ [e]) = numbers es := by
  rw [numbers, arrivals_quiet he, numbers]

theorem numbers_arrive (es : List TrafficEvent) (k : Nat) (peer : IpAddr) (req : Request) (isTls : Bool)
    (env : Environment) : numbers (es ++ [.arrive k peer req isTls env]) = numbers es ++ [k] := by
  rw [numbers, arrivals_append, List.map_append]
  rfl

/-- Each request so far has a number of its own, under which it is known. -/
structure Known (past : List TrafficEvent) (s : Traffic) : Prop where
  nodup : (numbers past).Nodup
  mem : ∀ k, (s.flights k).isSome = true ↔ k ∈ numbers past

variable {past : List TrafficEvent} {p : Handler}

theorem Known.start (p : Handler) : Known [] ⟨p, .empty⟩ := ⟨List.nodup_nil, fun _ => ⟨nofun, nofun⟩⟩

theorem Known.fresh (h : Known past s) {k : Nat} (hfree : s.flights k = none) : k ∉ numbers past := by
  rw [← h.mem k, hfree]
  exact nofun

/-- A request that is known stays so. -/
theorem Known.put (h : Known past s) {k : Nat} {f : Flight} (hf : s.flights k = some f) (he : arrival e = none)
    (f' : Flight) : Known (past ++ [e]) ⟨p, s.flights.insert k f'⟩ := by
  have hsame : numbers (past ++ [e]) = numbers past := numbers_quiet he
  refine ⟨hsame ▸ h.nodup, fun j => ?_⟩
  rw [hsame, ← h.mem j]
  by_cases hj : j = k
  · subst hj; simp [hf]
  · simp [DashMap.insert_other _ _ hj]

theorem Known.step (h : Known past s) (hs : s.step C e = some s') : Known (past ++ [e]) s' := by
  cases moves_iff.mp hs with
  | @arrived k peer req isTls env phase hfree henter =>
    refine ⟨?_, fun j => ?_⟩
    · rw [numbers_arrive]
      exact h.nodup.append (List.nodup_singleton k) (List.disjoint_singleton.mpr (h.fresh hfree))
    · rw [numbers_arrive, List.mem_append, List.mem_singleton, ← h.mem j]
      by_cases hj : j = k
      · subst hj; simp
      · simp [DashMap.insert_other _ _ hj, hj]
  | gone hf hgo => exact h.put hf rfl _
  | cancelled hf hopen => exact h.put hf rfl _
  | @checked host url ok now =>
    have hsame : numbers (past ++ [.health host url ok now]) = numbers past := numbers_quiet rfl
    exact ⟨hsame ▸ h.nodup, fun j => hsame ▸ h.mem j⟩

end Traffic

end Curf
