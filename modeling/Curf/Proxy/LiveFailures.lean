import Curf.Proxy.Requests

/-!
# Failing requests and the breaker

The breaker opens on failures that are reported to the load balancer. The
functions of the proxy report successes only, so that a request that fails on its
way leaves the breaker as it is; `live_failures_leave_breaker` draws this out for
a stretch of a run without any outcome reported for a backend.
-/

namespace Curf

open Lib

namespace Proxying

open LoadBalancer

/-- A request to the backend in position `b` fails on the backend's side. -/
def liveFailure (b : Nat) : ProxyEvent → Bool
  | .fail r .connectTimeout | .fail r .connectError | .fail r .handshakeError
  | .fail r .requestTimeout | .fail r .sendError => r.backend = b
  | _ => false

/-- The event is neither a successful response from the backend in position `b`
nor a health-check result for it. -/
def Quiet (b : Nat) (s : Proxying) : ProxyEvent → Prop
  | .head r status => r.backend = b → r.kind = .websocket ∧ status ≠ 101
  | .health url _ _ => url ≠ s.lb.urlAt b
  | _ => True

/-- The event is no success of the backend in position `b`. -/
def NoSuccess (b : Nat) (s : Proxying) : ProxyEvent → Prop
  | .head r status => r.backend = b → r.kind = .websocket ∧ status ≠ 101
  | .health url ok _ => url = s.lb.urlAt b → ok = false
  | _ => True

/-- The event is no `select` that half-opens the circuit of the backend in position
`b`: one that asks it when its last recorded failure is 30 seconds old. -/
def StaysShut (b : Nat) (s : Proxying) : ProxyEvent → Prop
  | .arrive _ ip now => ¬ s.lb.HalfOpens ip now b
  | _ => True

/-- The event is no `select` that comes 30 seconds or more after the last failure
recorded for the backend in position `b`. -/
def Recent (b : Nat) (s : Proxying) : ProxyEvent → Prop
  | .arrive _ _ now => ∀ be, s.lb.backends[b]? = some be → now - be.lastFailure < cbResetSecs
  | _ => True

/-- The event is no `select` that returns the backend in position `b`. -/
def NotReturned (b : Nat) (s : Proxying) : ProxyEvent → Prop
  | .arrive _ ip now => ∀ url, (s.lb.select ip now).1 ≠ some (url, b)
  | _ => True

/-- The backends keep the configured URLs, and a request its backend's. -/
structure Named (cfg : DomainConfig) (s : Proxying) : Prop where
  urls : s.lb.urls = cfg.backends
  requests : ∀ r ∈ s.requests, s.lb.urls[r.backend]? = some r.url

variable {cfg : DomainConfig} {s s' : Proxying} {r : ProxyRequest} {b : Nat}

theorem named_start (cfg : DomainConfig) : Named cfg (start cfg) := ⟨urls_new cfg, nofun⟩

theorem Named.keep (h : Named cfg s) {lb : LoadBalancer} {rs : List ProxyRequest}
    (hurls : lb.urls = s.lb.urls) (hrs : ∀ r ∈ rs, s.lb.urls[r.backend]? = some r.url) :
    Named cfg ⟨lb, rs⟩ :=
  ⟨hurls.trans h.urls, fun r hr => by
    show lb.urls[r.backend]? = some r.url
    rw [hurls]; exact hrs r hr⟩

theorem Named.of_erase (h : Named cfg s) : ∀ x ∈ s.requests.erase r, s.lb.urls[x.backend]? = some x.url :=
  fun x hx => h.requests x (List.mem_of_mem_erase hx)

theorem Named.of_moveTo (h : Named cfg s) (hr : r ∈ s.requests) {ph : RequestPhase} :
    ∀ x ∈ s.moveTo r ph, s.lb.urls[x.backend]? = some x.url := by
  intro x hx
  rcases List.mem_cons.mp hx with rfl | hx
  · exact h.requests r hr
  · exact h.of_erase x hx

theorem Named.step (h : Named cfg s) {e : ProxyEvent} (hs : s.step e = some s') : Named cfg s' := by
  cases moves_of_step hs with
  | unserved => exact h.keep (select_urls ..) h.requests
  | selected hpick =>
    refine h.keep (select_urls ..) fun x hx => ?_
    rcases List.mem_cons.mp hx with rfl | hx
    · obtain ⟨b, hb, -⟩ := pick_available hpick
      simp [urlAt_eq, urls_getElem?, hb]
    · exact h.requests x hx
  | connected hr => exact h.keep rfl (h.of_moveTo hr)
  | handshaken hr => exact h.keep rfl (h.of_moveTo hr)
  | failed => exact h.keep dropGuard_urls h.of_erase
  | response hr => exact h.keep (dropGuard_urls.trans (success_urls _)) (h.of_moveTo hr)
  | upgraded hr => exact h.keep dropGuard_urls (h.of_moveTo hr)
  | rejected => exact h.keep dropGuard_urls h.of_erase
  | finished => exact h.keep rfl h.of_erase
  | healthy => exact h.keep (success_urls _) h.requests
  | unhealthy => exact h.keep (failure_urls _) h.requests

/-- A success of another backend leaves the circuit alone. -/
theorem Named.success_other (h : Named cfg s) (hn : cfg.backends.Nodup) (hr : r ∈ s.requests)
    (hb : r.backend ≠ b) :
    circuitAt (s.lb.success r.url).backends b = circuitAt s.lb.backends b :=
  success_circuitAt_other fun hf =>
    hb (eq_of_find (h.urls ▸ hn) hf (h.requests r hr)).symm

theorem find_ne_of_url_ne {url : String} (h : url ≠ s.lb.urlAt b) : s.lb.find url ≠ some b := by
  intro hf
  rw [urlAt_eq, urls_of_find hf] at h
  exact h rfl

/-- While nothing is reported for a backend, its circuit is open after an event if
it was before and the event does not half-open it. -/
theorem Named.circuitAt_step (h : Named cfg s) (hn : cfg.backends.Nodup) {e : ProxyEvent}
    (hq : Quiet b s e) (hs : s.step e = some s') :
    circuitAt s'.lb.backends b = true ↔ circuitAt s.lb.backends b = true ∧ StaysShut b s e := by
  -- but for a `select` the circuit is left alone
  have hsame : circuitAt s'.lb.backends b = circuitAt s.lb.backends b → StaysShut b s e →
      (circuitAt s'.lb.backends b = true ↔ circuitAt s.lb.backends b = true ∧ StaysShut b s e) :=
    fun he hshut => by rw [he]; exact (and_iff_left hshut).symm
  cases moves_of_step hs with
  | unserved => exact select_circuitAt ..
  | selected => exact select_circuitAt ..
  | connected => exact hsame rfl trivial
  | handshaken => exact hsame rfl trivial
  | failed => exact hsame dropGuard_circuitAt trivial
  | response hr hph hkind =>
    refine hsame ?_ trivial
    rw [dropGuard_circuitAt, h.success_other hn hr fun hb => ?_]
    have := (hq hb).1
    rw [hkind] at this
    cases this
  | upgraded => exact hsame dropGuard_circuitAt trivial
  | rejected => exact hsame dropGuard_circuitAt trivial
  | finished => exact hsame rfl trivial
  | healthy => exact hsame (success_circuitAt_other (find_ne_of_url_ne hq)) trivial
  | unhealthy => exact hsame (failure_circuitAt_other (find_ne_of_url_ne hq)) trivial

theorem named_of_run {es : List ProxyEvent} (hrun : exec Proxying.step (start cfg) es = some s) :
    Named cfg s :=
  exec_inv (fun _ _ _ h hs => h.step hs) (named_start cfg) hrun

/-- An open circuit stays open under failures until its time is up. -/
theorem Named.circuitAt_keep (h : Named cfg s) (hn : cfg.backends.Nodup) {e : ProxyEvent}
    (hopen : circuitAt s.lb.backends b = true) (hq : NoSuccess b s e) (hr : Recent b s e)
    (hs : s.step e = some s') : circuitAt s'.lb.backends b = true := by
  by_cases hquiet : Quiet b s e
  · refine (h.circuitAt_step hn hquiet hs).mpr ⟨hopen, ?_⟩
    cases e with
    | arrive kind ip now => exact fun hh => not_availableAt_of_open hopen hr hh.1
    | _ => trivial
  · cases moves_of_step hs with
    | healthy => cases hq (not_not.mp hquiet)
    | unhealthy => exact failure_circuitAt_open hopen
    | response => exact absurd hq hquiet
    | upgraded => exact absurd hq hquiet
    | rejected => exact absurd hq hquiet
    | _ => exact absurd trivial hquiet

theorem notReturned_of_recent {e : ProxyEvent} (hopen : circuitAt s.lb.backends b = true)
    (hr : Recent b s e) : NotReturned b s e := by
  cases e with
  | arrive kind ip now =>
    intro url hsel
    rw [select_fst] at hsel
    obtain ⟨j, hp, hj⟩ := Option.map_eq_some_iff.mp hsel
    obtain ⟨-, rfl⟩ := Prod.mk.inj hj
    exact not_availableAt_of_open hopen hr (pick_available hp)
  | _ => trivial

/-- **Failing requests leave the breaker alone.** Let `q` be a stretch of a run
with no outcome reported for a backend, however many requests to it fail. Its
circuit is open afterwards exactly when it was open before and no `select` has
half-opened it; if it is, no `select` returns the backend as long as its last
recorded failure is less than 30 seconds old and no success is recorded. -/
theorem live_failures_leave_breaker {p q : List ProxyEvent} (hn : cfg.backends.Nodup)
    (hp : exec Proxying.step (start cfg) p = some s) (hq : exec Proxying.step s q = some s')
    (hquiet : Along Proxying.step (Quiet b) s q) :
    (circuitAt s'.lb.backends b = true ↔
        circuitAt s.lb.backends b = true ∧ Along Proxying.step (StaysShut b) s q) ∧
      (circuitAt s'.lb.backends b = true → ∀ r, Along Proxying.step (NoSuccess b) s' r →
        Along Proxying.step (Recent b) s' r → Along Proxying.step (NotReturned b) s' r) := by
  have hs : Named cfg s := named_of_run hp
  have hs' : Named cfg s' := exec_inv (fun _ _ _ h hs => h.step hs) hs hq
  constructor
  · exact exec_iff_along (I := Named cfg) (P := Quiet b)
      (fun _ _ _ h hq hs => ⟨h.step hs, h.circuitAt_step hn hq hs⟩) hs hquiet hq
  · intro hopen r hno hrecent
    exact Along.mono_inv (I := fun s => Named cfg s ∧ circuitAt s.lb.backends b = true)
      (P := fun s e => NoSuccess b s e ∧ Recent b s e)
      (fun _ _ _ h hP hs => ⟨h.1.step hs, h.1.circuitAt_keep hn h.2 hP.1 hP.2 hs⟩)
      (fun _ _ h hP => notReturned_of_recent h.2 hP.2) ⟨hs', hopen⟩ (hno.and hrecent)

/-- A request is on its way while five health checks open the circuit; its failure
does not close it. -/
theorem live_failures_leave_breaker_after_health :
    ∃ s s', exec Proxying.step (start { backends := ["http://a"] })
        (.arrive .http none 0 :: List.replicate 5 (.health "http://a" false 0)) = some s ∧
      exec Proxying.step s [.fail ⟨.http, "http://a", 0, .connecting⟩ .connectError] = some s' ∧
      circuitAt s'.lb.backends 0 = true := by
  obtain ⟨s, hs⟩ : ∃ s, exec Proxying.step (start { backends := ["http://a"] })
    (.arrive .http none 0 :: List.replicate 5 (.health "http://a" false 0)) = some s := ⟨_, rfl⟩
  obtain ⟨s', hs'⟩ : ∃ s', exec Proxying.step s [.fail ⟨.http, "http://a", 0, .connecting⟩ .connectError] =
    some s' := by cases hs; exact ⟨_, rfl⟩
  have hopen : circuitAt s.lb.backends 0 = true := by cases hs; decide
  exact ⟨s, s', hs, hs', (live_failures_leave_breaker (by decide) hs hs'
    ⟨trivial, fun _ _ => trivial⟩).1.mpr ⟨hopen, trivial, fun _ _ => trivial⟩⟩

/-- **Five failures unheard.** Five requests cannot connect to the only backend, and
its circuit is closed. -/
theorem failed_requests_leave_circuit_closed :
    ¬ ∀ (cfg : DomainConfig) (p q : List ProxyEvent) (s s' : Proxying) (b : Nat),
      cfg.backends.Nodup → b < cfg.backends.length →
      exec Proxying.step (start cfg) p = some s → exec Proxying.step s q = some s' →
      Along Proxying.step (Quiet b) s q → q.countP (liveFailure b) = 5 →
      circuitAt s'.lb.backends b = true := by
  intro h
  have hquiet : ∀ s, Along Proxying.step (Quiet 0) s (List.replicate 5
      [.arrive .http none 0, .fail ⟨.http, "http://a", 0, .connecting⟩ .connectError]).flatten := by
    intro s
    apply Along.of_forall
    intro s e he
    obtain ⟨l, hl, he⟩ := List.mem_flatten.mp he
    obtain rfl := List.eq_of_mem_replicate hl
    rcases List.mem_cons.mp he with rfl | he
    · trivial
    · obtain rfl := List.mem_singleton.mp he
      trivial
  have := h { backends := ["http://a"] } [] _ _ _ 0 (by decide) (by decide) rfl rfl (hquiet _) (by decide)
  exact absurd this (by decide)

end Proxying

end Curf
