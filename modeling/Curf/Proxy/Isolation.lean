import Curf.Lib.Exec
import Curf.Proxy.Handle

/-!
# What clients and domains share

A request reads and writes one bucket of the limiter, that of its client, and one load
balancer, that of its host; `handle_local` says so. Requests that share neither client
nor host therefore commute (`handle_commutes`).
-/

namespace Curf

open Lib

namespace DashMap

variable {α β : Type} [DecidableEq α]

/-- Put `v` under `k`, or nothing. -/
def set (m : DashMap α β) (k : α) (v : Option β) : DashMap α β := fun x => if x = k then v else m x

theorem insert_eq_set (m : DashMap α β) (k : α) (v : β) : m.insert k v = m.set k (some v) := rfl

@[simp] theorem set_same (m : DashMap α β) (k : α) (v : Option β) : m.set k v k = v := by simp [set]

theorem set_other (m : DashMap α β) {k x : α} (v : Option β) (h : x ≠ k) : m.set k v x = m x := by simp [set, h]

@[simp] theorem set_self (m : DashMap α β) (k : α) : m.set k (m k) = m := by
  funext x
  by_cases h : x = k
  · subst h; exact set_same ..
  · exact set_other _ _ h

@[simp] theorem set_set (m : DashMap α β) (k : α) (v w : Option β) : (m.set k v).set k w = m.set k w := by
  funext x
  by_cases hx : x = k
  · subst hx; simp
  · simp [set_other _ _ hx]

theorem set_comm (m : DashMap α β) {k l : α} (h : k ≠ l) (v w : Option β) :
    (m.set k v).set l w = (m.set l w).set k v := by
  funext x
  by_cases hx : x = k
  · subst hx; simp [set, h]
  · simp [set, hx]

end DashMap

/-! ## One client and one host -/

namespace RateLimiter

/-- The limiter with the bucket of one client, whoever asks. -/
def only (rl : RateLimiter) (peer : IpAddr) : RateLimiter := { rl with buckets := fun _ => rl.buckets peer }

/-- The limiter with the bucket that `peer` has in another. -/
def merge (rl : RateLimiter) (peer : IpAddr) (r : RateLimiter) : RateLimiter :=
  { rl with buckets := rl.buckets.set peer (r.buckets peer) }

/-- A call looks at the bucket of its client and at no other. -/
theorem isAllowed_local (rl : RateLimiter) (peer : IpAddr) (now : Rat) :
    rl.isAllowed peer now =
      (rl.merge peer ((rl.only peer).isAllowed peer now).1, ((rl.only peer).isAllowed peer now).2) := by
  unfold isAllowed
  by_cases h : rl.rps = 0
  · have honly : (rl.only peer).rps = 0 := h
    rw [if_pos h, if_pos honly]
    simp [merge, only]
  · have honly : ¬ (rl.only peer).rps = 0 := h
    have htokens : (rl.only peer).refilled ((rl.only peer).bucketOf peer now) now =
      rl.refilled (rl.bucketOf peer now) now := rfl
    rw [if_neg h, if_neg honly]
    unfold lockedSection
    dsimp only
    rw [htokens]
    split <;> simp [merge, only, DashMap.insert_eq_set]

end RateLimiter

/-- `forward` looks at the load balancer of the host and at no other. -/
theorem forward_local (C : Crates) (net : Network) (now : UInt64) (lbs : DashMap Text LoadBalancer) (req : Request)
    (host : Text) (peer : IpAddr) (onReply : LoadBalancer → String → LoadBalancer) :
    forward C net now lbs req host peer onReply =
      (forward C net now (fun _ => lbs host) req host peer onReply).map fun f =>
        { f with lbManager := lbs.set host (f.lbManager host) } := by
  unfold forward
  cases hlb : lbs host with
  | none =>
    have hself : lbs.set host none = lbs := by rw [← hlb]; exact lbs.set_self host
    simp [Except.map, hself]
  | some lb =>
    dsimp only
    cases lb.selectChecked (some peer) now with
    | error e => rfl
    | ok r =>
      obtain ⟨picked, lb'⟩ := r
      cases picked with
      | none => simp [Except.map, DashMap.insert_eq_set]
      | some picked =>
        obtain ⟨url, i⟩ := picked
        dsimp only
        cases C.parseUri url.toList with
        | none => simp [Except.map, DashMap.insert_eq_set]
        | some uri =>
          cases C.parseUri (req.pathAndQuery.getD ['/']) with
          | none => simp [Except.map, DashMap.insert_eq_set]
          | some _ =>
            dsimp only
            cases addForwardingHeaders C { req with pathAndQuery := some (req.pathAndQuery.getD ['/']) } peer host with
            | error e => rfl
            | ok sent =>
              dsimp only
              split
              · simp [Except.map, DashMap.insert_eq_set]
              · split <;> simp [Except.map, DashMap.insert_eq_set]

theorem proxyWebsocket_local (C : Crates) (net : Network) (now : UInt64) (lbs : DashMap Text LoadBalancer)
    (req : Request) (host : Text) (peer : IpAddr) :
    proxyWebsocket C net now lbs req host peer =
      (proxyWebsocket C net now (fun _ => lbs host) req host peer).map fun f =>
        { f with lbManager := lbs.set host (f.lbManager host) } := by
  unfold proxyWebsocket
  rw [forward_local]
  cases forward C net now (fun _ => lbs host) req host peer fun lb _ => lb with
  | error e => rfl
  | ok f =>
    obtain ⟨result, x, lbs'⟩ := f
    cases result with
    | error e => rfl
    | ok reply =>
      dsimp only [Except.map]
      split
      · rfl
      · cases Response.build C 101 [] [] <;> rfl

theorem proxyHttp_local (C : Crates) (net : Network) (now : UInt64) (lbs : DashMap Text LoadBalancer)
    (req : Request) (host : Text) (peer : IpAddr) :
    proxyHttp C net now lbs req host peer =
      (proxyHttp C net now (fun _ => lbs host) req host peer).map fun f =>
        { f with lbManager := lbs.set host (f.lbManager host) } := forward_local ..

namespace Handler

variable {C : Crates} {env : Environment} {p q : Handler} {peer : IpAddr} {req : Request} {isTls : Bool}
  {host : Text}

/-- The handler with the bucket of one client and the load balancer of one host, whoever
asks for whatever. -/
def only (p : Handler) (peer : IpAddr) (host : Text) : Handler :=
  { p with
    lbManager := fun _ => p.lbManager host
    rateLimiter := p.rateLimiter.only peer
    security := .new 0 p.security.flags }

/-- The handler with the bucket and the load balancer that another has. -/
def merge (p : Handler) (peer : IpAddr) (host : Text) (q : Handler) : Handler :=
  { p with
    lbManager := p.lbManager.set host (q.lbManager host)
    rateLimiter := p.rateLimiter.merge peer q.rateLimiter }

end Handler

/-- The outcome, with what it changes put into the handler `p`. -/
def Outcome.within (p : Handler) (peer : IpAddr) (host : Text) (out : Outcome) : Outcome :=
  { out with handler := p.merge peer host out.handler }

namespace Handler

variable {C : Crates} {env : Environment} {p q : Handler} {peer : IpAddr} {req : Request} {isTls : Bool}
  {host : Text}

theorem answer_within (p q : Handler) (service : Option Service) (r : Except Panic Response) :
    (q.answer service r).map (Outcome.within p peer host) = (p.merge peer host q).answer service r := by
  cases r <;> rfl

/-- **One bucket and one load balancer.** Of the buckets and the load balancers, `handle`
reads and writes those of the client and the host only; of the checker, it reads the
switches. -/
theorem handle_local (C : Crates) (env : Environment) (p : Handler) (peer : IpAddr) (req : Request) (isTls : Bool) :
    p.handle C env peer req isTls =
      ((p.only peer (hostOf C.caseTable req.headers)).handle C env peer req isTls).map
        (Outcome.within p peer (hostOf C.caseTable req.headers)) := by
  have hallowed := p.rateLimiter.isAllowed_local peer env.now
  have hsnd := congrArg Prod.snd hallowed
  have hfst := congrArg Prod.fst hallowed
  have hcheck (rl : RateLimiter) (host : Text) :
    ({ p.only peer host with rateLimiter := rl } : Handler).checkRequest C req = p.checkRequest C req := rfl
  have hredirects (rl : RateLimiter) (host : Text) :
    ({ p.only peer host with rateLimiter := rl } : Handler).redirects C req isTls = p.redirects C req isTls := rfl
  have hstatic (rl : RateLimiter) (host : Text) :
    ({ p.only peer host with rateLimiter := rl } : Handler).serveStatic C env req = p.serveStatic C env req := rfl
  have hlbs (host : Text) : (p.only peer host).lbManager = fun _ => p.lbManager host := rfl
  have hmerge (rl : RateLimiter) (host : Text) :
    p.merge peer host { p.only peer host with rateLimiter := rl } =
      { p with rateLimiter := p.rateLimiter.merge peer rl } := by
    simp [merge, only]
  unfold handle
  dsimp only at hfst hsnd ⊢
  rw [hsnd, hfst]
  show _ = Except.map _ (if ((p.rateLimiter.only peer).isAllowed peer env.now).2 = false then _ else _)
  by_cases hlimit : ((p.rateLimiter.only peer).isAllowed peer env.now).2 = false
  · rw [if_pos hlimit, if_pos hlimit, answer_within, hmerge]
    rfl
  · rw [if_neg hlimit, if_neg hlimit, checkRequest_limiter, hcheck]
    cases p.checkRequest C req with
    | error reason =>
      dsimp only
      rw [answer_within, hmerge]
      rfl
    | ok u =>
      dsimp only
      rw [redirects_limiter, hredirects]
      by_cases hredirect : p.redirects C req isTls = true
      · rw [if_pos hredirect, if_pos hredirect, answer_within, hmerge]
        rfl
      · rw [if_neg hredirect, if_neg hredirect]
        by_cases hws : isWebsocketUpgrade req = true
        · rw [if_pos hws, if_pos hws, proxyWebsocket_local]
          rw [hlbs]
          cases proxyWebsocket C env.network env.lbNow (fun _ => p.lbManager (hostOf C.caseTable req.headers)) req
              (hostOf C.caseTable req.headers) peer with
          | error e => rfl
          | ok f =>
            obtain ⟨result, x, lbs⟩ := f
            cases result with
            | error e => cases errorResponse C 502 "WebSocket proxy error" <;> rfl
            | ok resp => rfl
        · rw [if_neg hws, if_neg hws, serveStatic_limiter, hstatic]
          cases p.serveStatic C env req with
          | error e => rfl
          | ok served =>
            cases served with
            | some resp =>
              dsimp only
              rw [answer_within, hmerge]
              rfl
            | none =>
              dsimp only
              rw [proxyHttp_local]
              rw [hlbs]
              cases proxyHttp C env.network env.lbNow (fun _ => p.lbManager (hostOf C.caseTable req.headers)) req
                  (hostOf C.caseTable req.headers) peer with
              | error e => rfl
              | ok f =>
                obtain ⟨result, x, lbs⟩ := f
                cases result with
                | error e => cases htmlError C 502 "Bad Gateway" "The upstream server is unreachable." <;> rfl
                | ok resp =>
                  show answer _ _ (injectExtraHeaders C resp (hostOf C.caseTable req.headers) p.domainConfigs) =
                    Except.map _ (answer _ _
                      (injectExtraHeaders C resp (hostOf C.caseTable req.headers) p.domainConfigs))
                  cases injectExtraHeaders C resp (hostOf C.caseTable req.headers) p.domainConfigs <;> rfl

/-- The outcome is one of the handler with the bucket and the load balancer alone. -/
theorem local_of_handle {out : Outcome} (h : p.handle C env peer req isTls = .ok out) :
    ∃ o, (p.only peer (hostOf C.caseTable req.headers)).handle C env peer req isTls = .ok o ∧
      out = o.within p peer (hostOf C.caseTable req.headers) := by
  rw [handle_local] at h
  cases ho : (p.only peer (hostOf C.caseTable req.headers)).handle C env peer req isTls with
  | error e => rw [ho] at h; cases h
  | ok o => rw [ho] at h; cases h; exact ⟨o, rfl, rfl⟩

/-! ## Two clients and two hosts -/

/-- Another client's request for another host sees nothing of a merge. -/
theorem only_merge {a b : IpAddr} {g h : Text} (o : Handler) (hab : b ≠ a) (hgh : g ≠ h) :
    (p.merge a h o).only b g = p.only b g := by
  simp [only, merge, RateLimiter.only, RateLimiter.merge, DashMap.set_other _ _ hab, DashMap.set_other _ _ hgh]

theorem merge_comm {a b : IpAddr} {g h : Text} (o o' : Handler) (hab : a ≠ b) (hgh : g ≠ h) :
    (p.merge a g o).merge b h o' = (p.merge b h o').merge a g o := by
  simp only [merge, RateLimiter.merge, DashMap.set_comm _ hab, DashMap.set_comm _ hgh]

end Handler

/-! ## Traffic -/

/-- A request as it comes to the handler. -/
structure Call where
  env : Environment
  peer : IpAddr
  req : Request
  isTls : Bool

/-- The host that the request is for. -/
def Call.host (C : Crates) (c : Call) : Text := hostOf C.caseTable c.req.headers

/-- A request of the examples, for the root of a host. -/
def Call.get (ip : BitVec 32) (host : String) : Call :=
  ⟨Handler.replying ⟨200, [], []⟩, .v4 ip, .getRoot host [], false⟩

/-- A request with what it got. -/
structure Answered where
  call : Call
  response : Response
  service : Option Service

/-- The handler and its answers so far. A panic ends the process. -/
structure Serving where
  handler : Handler
  log : List Answered

namespace Serving

variable {C : Crates} {s s' : Serving} {c d : Call}

def step (C : Crates) (s : Serving) (c : Call) : Option Serving :=
  match s.handler.handle C c.env c.peer c.req c.isTls with
  | .error _ => none
  | .ok out => some ⟨out.handler, s.log ++ [⟨c, out.response, out.service⟩]⟩

theorem step_eq_some : step C s c = some s' ↔ ∃ out, s.handler.handle C c.env c.peer c.req c.isTls = .ok out ∧
    s' = ⟨out.handler, s.log ++ [⟨c, out.response, out.service⟩]⟩ := by
  unfold step
  cases s.handler.handle C c.env c.peer c.req c.isTls with
  | error e => simp
  | ok out => simp [eq_comm]

/-- A step gives the answer of the handler with one bucket and one load balancer. -/
theorem step_local (hs : step C s c = some s') :
    ∃ o, (s.handler.only c.peer (c.host C)).handle C c.env c.peer c.req c.isTls = .ok o ∧
      s' = ⟨s.handler.merge c.peer (c.host C) o.handler, s.log ++ [⟨c, o.response, o.service⟩]⟩ := by
  obtain ⟨out, hout, rfl⟩ := step_eq_some.mp hs
  obtain ⟨o, ho, rfl⟩ := Handler.local_of_handle hout
  exact ⟨o, ho, rfl⟩

/-- What the handler with one bucket and one load balancer answers is the answer. -/
theorem step_of_local {o : Outcome}
    (ho : (s.handler.only c.peer (c.host C)).handle C c.env c.peer c.req c.isTls = .ok o) :
    step C s c = some ⟨s.handler.merge c.peer (c.host C) o.handler, s.log ++ [⟨c, o.response, o.service⟩]⟩ := by
  refine step_eq_some.mpr ⟨o.within s.handler c.peer (c.host C), ?_, rfl⟩
  rw [Handler.handle_local]
  exact congrArg (Except.map _) ho

/-- **Requests commute** that share neither client nor host: in either order both get
the same answers and leave the handler in the same state. -/
theorem handle_commutes (hpeer : c.peer ≠ d.peer) (hhost : c.host C ≠ d.host C)
    (hrun : exec (step C) s [c, d] = some s') :
    ∃ a b, a.call = c ∧ b.call = d ∧ s'.log = s.log ++ [a, b] ∧
      exec (step C) s [d, c] = some ⟨s'.handler, s.log ++ [b, a]⟩ := by
  obtain ⟨m, hm, hrest⟩ := exec_cons.mp hrun
  have hs' := exec_single.mp hrest
  obtain ⟨oc, hoc, rfl⟩ := step_local hm
  obtain ⟨od, hod, rfl⟩ := step_local hs'
  rw [Handler.only_merge _ hpeer.symm hhost.symm] at hod
  have hfirst := step_of_local hod
  refine ⟨⟨c, oc.response, oc.service⟩, ⟨d, od.response, od.service⟩, rfl, rfl, by simp, ?_⟩
  refine exec_cons.mpr ⟨_, hfirst, exec_single.mpr ?_⟩
  rw [← Handler.only_merge (p := s.handler) od.handler hpeer hhost] at hoc
  have hsecond := step_of_local (s := ⟨s.handler.merge d.peer (d.host C) od.handler,
    s.log ++ [⟨d, od.response, od.service⟩]⟩) hoc
  rw [hsecond, Handler.merge_comm _ _ hpeer.symm hhost.symm]
  simp

theorem handle_commutes_two_hosts :
    ∃ s' a b, exec (step .sample) ⟨.single "h" { backends := ["http://a"] }, []⟩ [.get 1 "h", .get 2 "g"] = some s' ∧
      a.call.host .sample = "h".toList ∧ s'.log = [a, b] ∧
      exec (step .sample) ⟨.single "h" { backends := ["http://a"] }, []⟩ [.get 2 "g", .get 1 "h"] =
        some ⟨s'.handler, [b, a]⟩ := by
  obtain ⟨s', hs'⟩ : ∃ s', exec (step .sample) ⟨.single "h" { backends := ["http://a"] }, []⟩
    [.get 1 "h", .get 2 "g"] = some s' := ⟨_, rfl⟩
  obtain ⟨a, b, ha, -, hlog, hswap⟩ := handle_commutes (by decide) (by decide) hs'
  exact ⟨s', a, b, hs', by rw [ha]; decide, hlog, hswap⟩

end Serving

end Curf
