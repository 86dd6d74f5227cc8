import Curf.Proxy.InFlight

/-!
# Tenants

The domains of a proxy may belong to different people. `tenants_isolated` says for which
traffic the requests for some of the hosts are served as if the others were not there,
whatever is in flight at once: no other request comes from their clients, unless the
limiter is off.
-/

namespace Curf

open Lib

namespace Handler

/-- Two handlers of the same configuration agree on the buckets of some clients and on
the load balancers of some hosts. -/
structure AgreeOn (P : IpAddr → Bool) (H : Text → Bool) (p q : Handler) : Prop where
  domains : p.domainConfigs = q.domainConfigs
  statics : p.staticServers = q.staticServers
  flags : p.security.flags = q.security.flags
  rps : p.rateLimiter.rps = q.rateLimiter.rps
  burst : p.rateLimiter.burst = q.rateLimiter.burst
  buckets : ∀ a, P a = true → p.rateLimiter.buckets a = q.rateLimiter.buckets a
  balancers : ∀ h, H h = true → p.lbManager h = q.lbManager h

variable {C : Crates} {P : IpAddr → Bool} {H : Text → Bool} {p q : Handler} {peer : IpAddr} {host : Text}

theorem AgreeOn.refl (p : Handler) : AgreeOn P H p p := ⟨rfl, rfl, rfl, rfl, rfl, fun _ _ => rfl, fun _ _ => rfl⟩

theorem AgreeOn.enter (h : AgreeOn P H p q) (req : Request) (isTls allowed : Bool) :
    p.enter C req isTls allowed = q.enter C req isTls allowed := by
  have hcheck : p.checkRequest C req = q.checkRequest C req := by
    simp only [checkRequest, SecurityChecker.checkRequest, h.flags]
  have hredirects : p.redirects C req isTls = q.redirects C req isTls := by
    simp only [redirects, configOf, h.domains]
  rw [Handler.enter, Handler.enter, hcheck, hredirects]

theorem AgreeOn.go (h : AgreeOn P H p q) {f : Flight} (hH : H (f.host C) = true) (env : Environment) :
    p.go C env f = q.go C env f := by
  have hstatic : p.serveStatic C env f.req = q.serveStatic C env f.req := by simp only [serveStatic, h.statics]
  have hrelay (host : Text) (kind : RequestKind) (reply : Option Response) :
      p.relay C host kind reply = q.relay C host kind reply := by simp only [relay, h.domains]
  simp only [Handler.go, hstatic, hrelay, h.domains, h.balancers _ hH]

/-- Both ask their limiter for a client that they agree on. -/
theorem AgreeOn.limit (h : AgreeOn P H p q) (hP : P peer = true) (now : Rat) :
    (p.rateLimiter.isAllowed peer now).2 = (q.rateLimiter.isAllowed peer now).2 ∧
      AgreeOn P H { p with rateLimiter := (p.rateLimiter.isAllowed peer now).1 }
        { q with rateLimiter := (q.rateLimiter.isAllowed peer now).1 } := by
  have honly : p.rateLimiter.only peer = q.rateLimiter.only peer := by
    simp only [RateLimiter.only, h.rps, h.burst, h.buckets peer hP]
  rw [p.rateLimiter.isAllowed_local, q.rateLimiter.isAllowed_local, honly]
  refine ⟨rfl, h.domains, h.statics, h.flags, h.rps, h.burst, fun a ha => ?_, h.balancers⟩
  by_cases hpeer : a = peer
  · subst hpeer; simp [RateLimiter.merge]
  · simp [RateLimiter.merge, DashMap.set_other _ _ hpeer, h.buckets a ha]

/-- One asks its limiter for another client. -/
theorem AgreeOn.limit_left (h : AgreeOn P H p q) (hP : P peer = false ∨ p.rateLimiter.rps = 0) (now : Rat) :
    AgreeOn P H { p with rateLimiter := (p.rateLimiter.isAllowed peer now).1 } q := by
  rcases hP with hP | hoff
  · rw [p.rateLimiter.isAllowed_local]
    refine ⟨h.domains, h.statics, h.flags, h.rps, h.burst, fun a ha => ?_, h.balancers⟩
    have hpeer : a ≠ peer := by rintro rfl; rw [hP] at ha; cases ha
    simp [RateLimiter.merge, DashMap.set_other _ _ hpeer, h.buckets a ha]
  · rw [RateLimiter.isAllowed, if_pos hoff]
    exact ⟨h.domains, h.statics, h.flags, h.rps, h.burst, h.buckets, h.balancers⟩

theorem AgreeOn.balance (h : AgreeOn P H p q) (host : Text) (lb? : Option LoadBalancer) :
    AgreeOn P H (Traffic.balance p host lb?) (Traffic.balance q host lb?) := by
  refine ⟨h.domains, h.statics, h.flags, h.rps, h.burst, h.buckets, fun x hx => ?_⟩
  by_cases hhost : x = host
  · subst hhost; simp
  · simp [DashMap.set_other _ _ hhost, h.balancers x hx]

theorem AgreeOn.balance_left (h : AgreeOn P H p q) (hH : H host = false) (lb? : Option LoadBalancer) :
    AgreeOn P H (Traffic.balance p host lb?) q := by
  refine ⟨h.domains, h.statics, h.flags, h.rps, h.burst, h.buckets, fun x hx => ?_⟩
  have hhost : x ≠ host := by rintro rfl; rw [hH] at hx; cases hx
  simp [DashMap.set_other _ _ hhost, h.balancers x hx]

end Handler

namespace Traffic

variable {C : Crates} {s s' t : Traffic} {e : TrafficEvent} {P : IpAddr → Bool} {H : Text → Bool} {K : Nat → Bool}
  {p : Handler}

/-- The event is one of the requests with numbers in `K`, or a check of a host of `H`. -/
def own (K : Nat → Bool) (H : Text → Bool) : TrafficEvent → Bool
  | .arrive k _ _ _ _ | .go k _ | .cancel k => K k
  | .health host _ _ _ => H host

/-- The numbers in `K` are given to the requests for hosts of `H`. These hosts are asked for
by clients of `P`, and the others by other clients, or without a rate limit by anyone. -/
def Parted (C : Crates) (P : IpAddr → Bool) (H : Text → Bool) (K : Nat → Bool) (p : Handler) : TrafficEvent → Prop
  | .arrive k peer req _ _ =>
    K k = H (hostOf C.caseTable req.headers) ∧
      if K k = true then P peer = true else P peer = false ∨ p.rateLimiter.rps = 0
  | _ => True

instance : ∀ e, Decidable (Parted C P H K p e)
  | .arrive k peer req _ _ => inferInstanceAs (Decidable (K k = H (hostOf C.caseTable req.headers) ∧
      if K k = true then P peer = true else P peer = false ∨ p.rateLimiter.rps = 0))
  | .go .. | .cancel _ | .health .. => .isTrue trivial

/-- The second state is that of the requests with numbers in `K` alone. -/
structure Apart (C : Crates) (P : IpAddr → Bool) (H : Text → Bool) (K : Nat → Bool) (p : Handler) (s t : Traffic) :
    Prop where
  agree : Handler.AgreeOn P H s.handler t.handler
  rps : s.handler.rateLimiter.rps = p.rateLimiter.rps
  flights : ∀ k, K k = true → s.flights k = t.flights k
  hosts : ∀ k f, s.flights k = some f → K k = H (f.host C)

theorem isAllowed_rps (rl : RateLimiter) (peer : IpAddr) (now : Rat) : (rl.isAllowed peer now).1.rps = rl.rps := by
  rw [rl.isAllowed_local]
  rfl

/-- A request of both comes or goes on. -/
theorem Apart.insert (h : Apart C P H K p s t) {q q' : Handler} (hagree : Handler.AgreeOn P H q q')
    (hrps : q.rateLimiter.rps = p.rateLimiter.rps) {k : Nat} {f : Flight} (hf : K k = H (f.host C)) :
    Apart C P H K p ⟨q, s.flights.insert k f⟩ ⟨q', t.flights.insert k f⟩ := by
  refine ⟨hagree, hrps, fun j hj => ?_, fun j g hj => ?_⟩
  · by_cases hk : j = k
    · subst hk; simp
    · simp [DashMap.insert_other _ _ hk, h.flights j hj]
  · dsimp only at hj
    by_cases hk : j = k
    · subst hk; rw [DashMap.insert_same] at hj; cases hj; exact hf
    · exact h.hosts j g (by simpa [DashMap.insert_other _ _ hk] using hj)

/-- A request of the first alone comes or goes on. -/
theorem Apart.insert_left (h : Apart C P H K p s t) {q : Handler} (hagree : Handler.AgreeOn P H q t.handler)
    (hrps : q.rateLimiter.rps = p.rateLimiter.rps) {k : Nat} (hk : K k = false) {f : Flight}
    (hf : K k = H (f.host C)) : Apart C P H K p ⟨q, s.flights.insert k f⟩ t := by
  refine ⟨hagree, hrps, fun j hj => ?_, fun j g hj => ?_⟩
  · have hne : j ≠ k := by rintro rfl; rw [hk] at hj; cases hj
    simp [DashMap.insert_other _ _ hne, h.flights j hj]
  · dsimp only at hj
    by_cases hne : j = k
    · subst hne; rw [DashMap.insert_same] at hj; cases hj; exact hf
    · exact h.hosts j g (by simpa [DashMap.insert_other _ _ hne] using hj)

/-- An event of the tenants happens in both. -/
theorem Apart.keep (h : Apart C P H K p s t) (he : Parted C P H K p e) (hown : own K H e = true)
    (hs : s.step C e = some s') : ∃ t', t.step C e = some t' ∧ Apart C P H K p s' t' := by
  cases moves_iff.mp hs with
  | @arrived k peer req isTls env phase hfree henter =>
    obtain ⟨hk, hclient⟩ := he
    rw [if_pos (show K k = true from hown)] at hclient
    obtain ⟨hsame, hagree⟩ := h.agree.limit hclient env.now
    rw [hsame, h.agree.enter] at henter
    refine ⟨_, moves_iff.mpr (.arrived ((h.flights k hown).symm.trans hfree) henter), ?_⟩
    exact h.insert hagree ((isAllowed_rps ..).trans h.rps) hk
  | @gone k env f lb? phase hf hgo =>
    have hhost := h.hosts k f hf
    rw [h.agree.go (hhost.symm.trans hown)] at hgo
    refine ⟨_, moves_iff.mpr (.gone ((h.flights k hown).symm.trans hf) hgo), ?_⟩
    exact h.insert (h.agree.balance ..) h.rps hhost
  | @cancelled k f hf hopen =>
    have hhost := h.hosts k f hf
    refine ⟨_, moves_iff.mpr (.cancelled ((h.flights k hown).symm.trans hf) hopen), ?_⟩
    rw [← h.agree.balancers _ (hhost.symm.trans hown)]
    exact h.insert (h.agree.balance ..) h.rps hhost
  | @checked host url ok now =>
    refine ⟨_, moves_iff.mpr .checked, ?_⟩
    rw [← h.agree.balancers host hown]
    exact ⟨h.agree.balance .., h.rps, h.flights, h.hosts⟩

/-- An event of the others changes nothing for the tenants. -/
theorem Apart.drop (h : Apart C P H K p s t) (he : Parted C P H K p e) (hown : own K H e = false)
    (hs : s.step C e = some s') : Apart C P H K p s' t := by
  cases moves_iff.mp hs with
  | @arrived k peer req isTls env phase hfree henter =>
    obtain ⟨hk, hclient⟩ := he
    rw [if_neg (by rw [show K k = false from hown]; simp)] at hclient
    have hagree := h.agree.limit_left (hclient.imp_right h.rps.trans) env.now
    exact h.insert_left hagree ((isAllowed_rps ..).trans h.rps) hown hk
  | @gone k env f lb? phase hf hgo =>
    have hhost := h.hosts k f hf
    exact h.insert_left (h.agree.balance_left (hhost.symm.trans hown) _) h.rps hown hhost
  | @cancelled k f hf hopen =>
    have hhost := h.hosts k f hf
    exact h.insert_left (h.agree.balance_left (hhost.symm.trans hown) _) h.rps hown hhost
  | checked => exact ⟨h.agree.balance_left hown _, h.rps, h.flights, h.hosts⟩

/-- **Tenants are isolated.** Let some hosts have clients of their own, or the limiter be
off. Whatever other requests and checks come in between, are in flight at the same time or
are dropped, each request for these hosts is at every moment where it would be without the
others, and gets the same answer. -/
theorem tenants_isolated {es : List TrafficEvent} (hes : ∀ e ∈ es, Parted C P H K p e)
    (hrun : exec (step C) ⟨p, .empty⟩ es = some s) :
    ∃ t, exec (step C) ⟨p, .empty⟩ (es.filter (own K H)) = some t ∧ ∀ k, K k = true → t.flights k = s.flights k := by
  have hstart : Apart C P H K p ⟨p, .empty⟩ ⟨p, .empty⟩ := ⟨.refl p, rfl, fun _ _ => rfl, fun _ _ hf => by cases hf⟩
  obtain ⟨t, ht, hend⟩ := exec_purge (fun _ _ e _ he hown h hs => Apart.keep h (hes e he) hown hs)
    (fun _ _ e _ he hown h hs => Apart.drop h (hes e he) hown hs) hstart hrun
  exact ⟨t, ht, fun k hk => (hend.flights k hk).symm⟩

/-- A request of another client for a host that is not configured, dropped while the first
is on its way. -/
theorem tenants_isolated_dropped :
    ∃ s t, exec (step .sample) ⟨.single "h" { backends := ["http://a"] }, .empty⟩
        [.get 0 1 "h", .get 1 2 "g", .on 1, .on 0, .on 0, .cancel 1, .on 0, .on 0, .on 0] = some s ∧
      exec (step .sample) ⟨.single "h" { backends := ["http://a"] }, .empty⟩
        [.get 0 1 "h", .on 0, .on 0, .on 0, .on 0, .on 0] = some t ∧
      t.flights 0 = s.flights 0 ∧ ∃ f, s.flights 0 = some f ∧ f.phase.isOver = true := by
  obtain ⟨s, hs⟩ : ∃ s, exec (step .sample) ⟨.single "h" { backends := ["http://a"] }, .empty⟩
    [.get 0 1 "h", .get 1 2 "g", .on 1, .on 0, .on 0, .cancel 1, .on 0, .on 0, .on 0] = some s := ⟨_, rfl⟩
  obtain ⟨t, ht, hflights⟩ := tenants_isolated (P := (· = .v4 1)) (H := (· = "h".toList)) (K := (· = 0))
    (by decide) hs
  exact ⟨s, t, hs, ht, hflights 0 rfl, by cases hs; exact ⟨_, rfl, rfl⟩⟩

end Traffic

end Curf
