import Curf.Lib.Exec
import Curf.Lib.Tally
import Curf.Balancer.Pick

/-!
# Requests on their way through the proxy

The requests of one domain, from `select` to their end. `proxy_http` and
`proxy_websocket` go through the same phases: they connect to the backend, run
the HTTP handshake and send the request; each step may fail and end the request.
When the response head has arrived both functions return, the body or the tunnel
being left to other tasks. Health checks run beside them.

The guard that counts a request is a local variable of these functions.
`active_eq_served_iff` compares the count with the requests being served.
-/

namespace Curf

open Lib

inductive RequestKind where
  | http
  | websocket
  deriving DecidableEq, Repr

inductive RequestPhase where
  | connecting
  | handshaking
  | sending
  /-- The response body is being relayed. -/
  | body
  /-- The WebSocket tunnel is open. -/
  | tunnel
  deriving DecidableEq, Repr

/-- Whether the function that selected the backend, and with it the guard, is
still there. -/
def RequestPhase.guarded : RequestPhase → Bool
  | .connecting | .handshaking | .sending => true
  | .body | .tunnel => false

/-- The ways a request ends without a response. -/
inductive FailReason where
  /-- The backend URL or the target does not parse. -/
  | badUri
  | connectTimeout
  | connectError
  | handshakeError
  | requestTimeout
  | sendError
  /-- The client has gone and the server drops the request. -/
  | cancelled
  deriving DecidableEq, Repr

/-- Whether a request in the phase `ph` can end this way. -/
def FailReason.hits : FailReason → RequestPhase → Bool
  | .badUri, ph | .connectTimeout, ph | .connectError, ph => ph = .connecting
  | .handshakeError, ph => ph = .handshaking
  | .requestTimeout, ph | .sendError, ph => ph = .sending
  | .cancelled, ph => ph.guarded

structure ProxyRequest where
  kind : RequestKind
  url : String
  /-- The position of the selected backend. -/
  backend : Nat
  phase : RequestPhase
  deriving DecidableEq, Repr

/-- The load balancer of a domain and the requests being served. -/
structure Proxying where
  lb : LoadBalancer
  requests : List ProxyRequest

inductive ProxyEvent where
  | arrive (kind : RequestKind) (ip : Option IpAddr) (now : UInt64)
  | connected (r : ProxyRequest)
  | handshaken (r : ProxyRequest)
  | fail (r : ProxyRequest) (reason : FailReason)
  /-- The response head arrives. -/
  | head (r : ProxyRequest) (status : Nat)
  /-- The body has been relayed or the tunnel has closed. -/
  | finished (r : ProxyRequest)
  | health (url : String) (ok : Bool) (now : UInt64)
  deriving DecidableEq

namespace Proxying

open LoadBalancer

def start (cfg : DomainConfig) : Proxying := ⟨.new cfg, []⟩

/-- `r` goes on to the phase `ph`. -/
def moveTo (s : Proxying) (r : ProxyRequest) (ph : RequestPhase) : List ProxyRequest :=
  { r with phase := ph } :: s.requests.erase r

/-- The requests selected to the backend in position `b` that are being served. -/
def served (s : Proxying) (b : Nat) : Nat := s.requests.countP fun r => decide (r.backend = b)

/-- Those of them whose guard is still there. -/
def guarded (s : Proxying) (b : Nat) : Nat :=
  s.requests.countP fun r => decide (r.backend = b) && r.phase.guarded

def step (s : Proxying) : ProxyEvent → Option Proxying
  | .arrive kind ip now =>
    match s.lb.select ip now with
    | (none, lb) => some ⟨lb, s.requests⟩
    | (some (url, i), lb) =>
      -- one reference too many aborts the program
      if s.guarded i < maxGuards then some ⟨lb, ⟨kind, url, i, .connecting⟩ :: s.requests⟩ else none
  | .connected r =>
    if r ∈ s.requests ∧ r.phase = .connecting then some { s with requests := s.moveTo r .handshaking }
    else none
  | .handshaken r =>
    if r ∈ s.requests ∧ r.phase = .handshaking then some { s with requests := s.moveTo r .sending }
    else none
  | .fail r reason =>
    -- neither function reports the failure to the load balancer
    if r ∈ s.requests ∧ reason.hits r.phase then
      some { s with lb := s.lb.dropGuard r.backend, requests := s.requests.erase r }
    else none
  | .head r status =>
    if r ∈ s.requests ∧ r.phase = .sending then
      match r.kind with
      | .http =>
        some { s with lb := (s.lb.success r.url).dropGuard r.backend, requests := s.moveTo r .body }
      | .websocket =>
        if status = 101 then
          some { s with lb := s.lb.dropGuard r.backend, requests := s.moveTo r .tunnel }
        else some { s with lb := s.lb.dropGuard r.backend, requests := s.requests.erase r }
    else none
  | .finished r =>
    if r ∈ s.requests ∧ r.phase.guarded = false then
      some { s with requests := s.requests.erase r }
    else none
  | .health url ok now => some { s with lb := if ok then s.lb.success url else s.lb.failure url now }

/-- What an event can do, one case for each way through the code. -/
inductive Moves (s : Proxying) : ProxyEvent → Proxying → Prop
  | unserved {kind : RequestKind} {ip : Option IpAddr} {now : UInt64} (hpick : s.lb.pick ip now = none) :
      Moves s (.arrive kind ip now) ⟨(s.lb.select ip now).2, s.requests⟩
  | selected {kind : RequestKind} {ip : Option IpAddr} {now : UInt64} {i : Nat}
      (hpick : s.lb.pick ip now = some i) (hfew : s.guarded i < maxGuards) :
      Moves s (.arrive kind ip now)
        ⟨(s.lb.select ip now).2, ⟨kind, s.lb.urlAt i, i, .connecting⟩ :: s.requests⟩
  | connected {r : ProxyRequest} (hr : r ∈ s.requests) (hph : r.phase = .connecting) :
      Moves s (.connected r) { s with requests := s.moveTo r .handshaking }
  | handshaken {r : ProxyRequest} (hr : r ∈ s.requests) (hph : r.phase = .handshaking) :
      Moves s (.handshaken r) { s with requests := s.moveTo r .sending }
  | failed {r : ProxyRequest} {reason : FailReason} (hr : r ∈ s.requests) (hhits : reason.hits r.phase = true) :
      Moves s (.fail r reason) { s with lb := s.lb.dropGuard r.backend, requests := s.requests.erase r }
  | response {r : ProxyRequest} {status : Nat} (hr : r ∈ s.requests) (hph : r.phase = .sending)
      (hkind : r.kind = .http) :
      Moves s (.head r status)
        { s with lb := (s.lb.success r.url).dropGuard r.backend, requests := s.moveTo r .body }
  | upgraded {r : ProxyRequest} (hr : r ∈ s.requests) (hph : r.phase = .sending) (hkind : r.kind = .websocket) :
      Moves s (.head r 101) { s with lb := s.lb.dropGuard r.backend, requests := s.moveTo r .tunnel }
  | rejected {r : ProxyRequest} {status : Nat} (hr : r ∈ s.requests) (hph : r.phase = .sending)
      (hkind : r.kind = .websocket) (hstatus : status ≠ 101) :
      Moves s (.head r status) { s with lb := s.lb.dropGuard r.backend, requests := s.requests.erase r }
  | finished {r : ProxyRequest} (hr : r ∈ s.requests) (hph : r.phase.guarded = false) :
      Moves s (.finished r) { s with requests := s.requests.erase r }
  | healthy {url : String} {now : UInt64} : Moves s (.health url true now) { s with lb := s.lb.success url }
  | unhealthy {url : String} {now : UInt64} :
      Moves s (.health url false now) { s with lb := s.lb.failure url now }

theorem moves_of_step {s s' : Proxying} {e : ProxyEvent} (hs : s.step e = some s') : Moves s e s' := by
  cases e with
  | arrive kind ip now =>
    simp only [step] at hs
    rw [select_eq] at hs
    cases hp : s.lb.pick ip now with
    | none =>
      rw [hp] at hs
      cases hs
      exact .unserved hp
    | some i =>
      rw [hp] at hs
      dsimp only [Option.map_some] at hs
      split at hs
      · rename_i hfew; cases hs; exact .selected hp hfew
      · cases hs
  | connected r =>
    simp only [step] at hs
    split at hs
    · rename_i hr; cases hs; exact .connected hr.1 hr.2
    · cases hs
  | handshaken r =>
    simp only [step] at hs
    split at hs
    · rename_i hr; cases hs; exact .handshaken hr.1 hr.2
    · cases hs
  | fail r reason =>
    simp only [step] at hs
    split at hs
    · rename_i hr; cases hs; exact .failed hr.1 hr.2
    · cases hs
  | head r status =>
    simp only [step] at hs
    split at hs
    · rename_i hr
      split at hs
      · rename_i hkind; cases hs; exact .response hr.1 hr.2 hkind
      · rename_i hkind
        split at hs
        · rename_i hstatus; subst hstatus; cases hs; exact .upgraded hr.1 hr.2 hkind
        · rename_i hstatus; cases hs; exact .rejected hr.1 hr.2 hkind hstatus
    · cases hs
  | finished r =>
    simp only [step] at hs
    split at hs
    · rename_i hr; cases hs; exact .finished hr.1 hr.2
    · cases hs
  | health url ok now =>
    cases ok with
    | true => cases hs; exact .healthy
    | false => cases hs; exact .unhealthy

/-- `active` counts the guards. -/
def Counts (s : Proxying) : Prop := ∀ b, activeAt s.lb.backends b = s.guarded b

variable {s s' : Proxying} {r : ProxyRequest} {b : Nat}

/-- A request moves on under its guard. -/
theorem Counts.move (h : Counts s) (hr : r ∈ s.requests) {ph : RequestPhase}
    (hg : ph.guarded = r.phase.guarded) : Counts { s with requests := s.moveTo r ph } := by
  intro b
  rw [h b]
  refine (countP_replace_same hr ?_).symm
  simp [hg]

theorem guarded_erase (hr : r ∈ s.requests) (hg : r.phase.guarded = true) (b : Nat) :
    (s.requests.erase r).countP (fun r => decide (r.backend = b) && r.phase.guarded) +
      (if r.backend = b then 1 else 0) = s.guarded b := by
  have := countP_erase_add (p := fun r : ProxyRequest => decide (r.backend = b) && r.phase.guarded) hr
  simpa [guarded, hg] using this

/-- A request ends under its guard, which is dropped. -/
theorem Counts.dropGuard (h : Counts s) (hr : r ∈ s.requests) (hg : r.phase.guarded = true) :
    Counts { s with lb := s.lb.dropGuard r.backend, requests := s.requests.erase r } := by
  have hpos : 0 < activeAt s.lb.backends r.backend := by
    have := guarded_erase hr hg r.backend
    rw [if_pos rfl] at this
    rw [h r.backend]
    omega
  intro b
  have h1 := dropGuard_activeAt (j := b) hpos
  have h2 := guarded_erase hr hg b
  have h3 := h b
  show activeAt (s.lb.dropGuard r.backend).backends b =
    (s.requests.erase r).countP (fun r => decide (r.backend = b) && r.phase.guarded)
  omega

/-- What comes without a guard does not count. -/
theorem Counts.cons (h : Counts s) (hg : r.phase.guarded = false) :
    Counts { s with requests := r :: s.requests } := by
  intro b
  rw [h b]
  simp [guarded, hg]

theorem Counts.success (h : Counts s) (url : String) : Counts { s with lb := s.lb.success url } :=
  fun b => (success_activeAt url).trans (h b)

theorem FailReason.guarded_of_hits {reason : FailReason} {ph : RequestPhase} (h : reason.hits ph = true) :
    ph.guarded = true := by
  cases reason <;> cases ph <;> first | rfl | cases h

/-- `select` counts the request it picks a backend for. -/
theorem Counts.select (h : Counts s) {ip : Option IpAddr} {now : UInt64}
    (hfew : ∀ i, s.lb.pick ip now = some i → s.guarded i < maxGuards) (b : Nat) :
    activeAt (s.lb.select ip now).2.backends b =
      s.guarded b + if s.lb.pick ip now = some b then 1 else 0 := by
  have hlt := activeAt_lt s.lb.backends b
  rw [h b] at hlt
  rw [select_activeAt, h b, Nat.mod_eq_of_lt]
  split
  · rename_i hpick
    have := hfew b hpick
    unfold maxGuards at this
    omega
  · exact hlt

theorem Counts.step (h : Counts s) {e : ProxyEvent} (hs : s.step e = some s') : Counts s' := by
  have hsending : ∀ {r : ProxyRequest}, r.phase = .sending → r.phase.guarded = true := fun h => by rw [h]; rfl
  cases moves_of_step hs with
  | unserved hpick =>
    intro b
    rw [h.select (by rw [hpick]; exact nofun), hpick]; rfl
  | selected hpick hfew =>
    intro b
    rw [h.select fun k hk => by rw [hpick] at hk; cases hk; exact hfew, hpick]
    simp [guarded, List.countP_cons, RequestPhase.guarded]
  | connected hr hph => exact h.move hr (by rw [hph]; rfl)
  | handshaken hr hph => exact h.move hr (by rw [hph]; rfl)
  | failed hr hhits => exact h.dropGuard hr (FailReason.guarded_of_hits hhits)
  | response hr hph => exact ((h.success _).dropGuard hr (hsending hph)).cons rfl
  | upgraded hr hph => exact (h.dropGuard hr (hsending hph)).cons rfl
  | rejected hr hph => exact h.dropGuard hr (hsending hph)
  | finished hr hph =>
    intro b
    have := countP_erase_add (p := fun r : ProxyRequest => decide (r.backend = b) && r.phase.guarded) hr
    rw [h b]
    simpa [guarded, hph] using this.symm
  | healthy => exact fun b => (success_activeAt _).trans (h b)
  | unhealthy => exact fun b => (failure_activeAt _).trans (h b)

theorem counts_start (cfg : DomainConfig) : Counts (start cfg) := activeAt_new cfg

theorem counts_of_run {cfg : DomainConfig} {es : List ProxyEvent}
    (hrun : exec Proxying.step (start cfg) es = some s) : Counts s :=
  exec_inv (fun _ _ _ h hs => h.step hs) (counts_start cfg) hrun

/-- Of the requests being served, those without a guard are not counted. -/
theorem guarded_eq_served_iff :
    s.guarded b = s.served b ↔ ∀ r ∈ s.requests, r.backend = b → r.phase.guarded = true := by
  unfold guarded served
  induction s.requests with
  | nil => simp
  | cons r rs ih =>
    have hle : rs.countP (fun r => decide (r.backend = b) && r.phase.guarded) ≤
        rs.countP fun r => decide (r.backend = b) :=
      List.countP_mono_left fun r _ h => (Bool.and_eq_true_iff.mp h).1
    rw [List.countP_cons, List.countP_cons, List.forall_mem_cons, ← ih]
    by_cases hb : r.backend = b
    · cases hg : r.phase.guarded with
      | true => simp [hb]
      | false => simp [hb]; omega
    · simp [hb]

/-- **Active count and load.** In every reachable state the active count of a
backend is the number of its requests being served exactly when the response head
of none of them has arrived yet. -/
theorem active_eq_served_iff {cfg : DomainConfig} {es : List ProxyEvent}
    (hrun : exec Proxying.step (start cfg) es = some s) (b : Nat) :
    activeAt s.lb.backends b = s.served b ↔
      ∀ r ∈ s.requests, r.backend = b → r.phase ≠ .body ∧ r.phase ≠ .tunnel := by
  have hphase : ∀ ph : RequestPhase, ph.guarded = true ↔ ph ≠ .body ∧ ph ≠ .tunnel := by
    intro ph
    cases ph <;> decide
  rw [counts_of_run hrun b, guarded_eq_served_iff]
  exact forall_congr' fun r => forall₂_congr fun _ _ => hphase r.phase

theorem active_eq_served_iff_sending :
    ∃ s, exec Proxying.step (start { backends := ["http://a"] })
        [.arrive .http none 1, .connected ⟨.http, "http://a", 0, .connecting⟩] = some s ∧
      activeAt s.lb.backends 0 = s.served 0 := by
  obtain ⟨s, hs⟩ : ∃ s, exec Proxying.step (start { backends := ["http://a"] })
    [.arrive .http none 1, .connected ⟨.http, "http://a", 0, .connecting⟩] = some s := ⟨_, rfl⟩
  refine ⟨s, hs, (active_eq_served_iff hs 0).mpr ?_⟩
  cases hs
  decide

/-- **A body without a guard.** While the response of the only request is being
relayed, its backend has no active request. -/
theorem body_not_counted :
    ¬ ∀ (cfg : DomainConfig) (es : List ProxyEvent) (s : Proxying),
      exec Proxying.step (start cfg) es = some s → ∀ b, activeAt s.lb.backends b = s.served b := by
  intro h
  have := h { backends := ["http://a"] }
    [.arrive .http none 1, .connected ⟨.http, "http://a", 0, .connecting⟩,
      .handshaken ⟨.http, "http://a", 0, .handshaking⟩, .head ⟨.http, "http://a", 0, .sending⟩ 200] _ rfl 0
  exact absurd this (by decide)

end Proxying

end Curf
