import Curf.Proxy.Handle
import Curf.Server.Listeners

/-!
# Blocked addresses

A block turns new connections of an address away. `handle` does not look at it, so
that a connection accepted before the block goes on being served.
`blocked_without_service` says which blocks leave no such connection.
-/

namespace Curf

open Lib Lib.Multimap

namespace Handler

variable (C : Crates) (env : Environment) (p : Handler) (peer : IpAddr) (req : Request) (isTls : Bool)

/-- The service that a request gets, even if a panic follows. -/
def serviceOf : Option Service :=
  match p.stage C env peer req isTls with
  | .limited | .filtered _ | .redirected => none
  | .upgraded => if p.Overfull C env peer req then none else (p.exchangeOf C env peer req).map .backend
  | .plain =>
    match p.serveStatic C env req with
    | .error _ => none
    | .ok (some resp) => if p.OverfullWith C req resp.headers then none else some .staticFile
    | .ok none => if p.Overfull C env peer req then none else (p.exchangeOf C env peer req).map .backend

variable {C env p peer req isTls}

theorem exit_service {x : Exit} (h : p.exit C env peer req isTls = .ok x) :
    x.service = p.serviceOf C env peer req isTls := by
  have hways := exits C env p peer req isTls
  rw [h] at hways
  unfold serviceOf
  cases hways with
  | limited hstage => rw [hstage]
  | filtered hstage => rw [hstage]
  | redirected hstage => rw [hstage]
  | switched hstage hroom => simp only [hstage, if_neg hroom]
  | rejected hstage hroom => simp only [hstage, if_neg hroom]
  | served hstage hstatic hfits => simp only [hstage, hstatic, if_neg hfits]
  | proxied hstage hstatic hroom => simp only [hstage, hstatic, if_neg hroom]
  | unreachable hstage hstatic hroom => simp only [hstage, hstatic, if_neg hroom]

theorem service_of_handle {out : Outcome} (h : p.handle C env peer req isTls = .ok out) :
    out.service = p.serviceOf C env peer req isTls := exit_service (exit_of_handle h)

end Handler

/-- A request that was taken, with what the checker said of its address at the time. -/
structure TakenRequest where
  ip : IpAddr
  blocked : Bool
  service : Option Service
  deriving DecidableEq, Repr

/-- The listeners and the handler, which share the checker. -/
structure Process where
  server : Server
  handler : Handler
  /-- A panic has ended the process. -/
  down : Bool
  requests : List TakenRequest

inductive ProcessEvent where
  | conn (e : ServerEvent)
  | request (t : ConnTask) (env : Environment) (req : Request)

namespace Process

variable (C : Crates)

def start (handler : Handler) (maxConnectionsPerIp : Nat) (flags : SecurityFlags) (maxConns : Nat) : Process :=
  ⟨.start maxConnectionsPerIp flags maxConns, handler, false, []⟩

/-- Requests come on the connections that are being served. -/
def step (s : Process) : ProcessEvent → Option Process
  | .conn e => if s.down then none else (s.server.step e).map fun server => { s with server }
  | .request t env req =>
    if s.down = false ∧ t ∈ s.server.tasks ∧ t.phase = .serving then
      let p := { s.handler with security := s.server.security }
      let isTls := decide (t.listener = .https)
      let blocked := (s.server.security.blockedIps t.ip).isSome
      match p.handle C env t.ip req isTls with
      | .ok out => some { s with
          handler := out.handler
          requests := ⟨t.ip, blocked, out.service⟩ :: s.requests }
      | .error _ => some { s with
          down := true
          requests := ⟨t.ip, blocked, p.serviceOf C env t.ip req isTls⟩ :: s.requests }
    else none

/-- No blocked address has got service. -/
def Refused (s : Process) : Prop := ∀ r ∈ s.requests, r.blocked = true → r.service = none

/-- No connection of a blocked address is served. -/
def Cut (s : Process) : Prop :=
  ∀ t ∈ s.server.tasks, t.phase = .serving → ¬ s.server.security.Blocked t.ip

/-- A connection of the address is in its TLS handshake. -/
def Shaking (s : Process) (ip : IpAddr) : Prop := s.down = false ∧ ⟨ip, .https, .handshake⟩ ∈ s.server.tasks

/-- A failed handshake blocks an address of which no connection is served, and a
handshake that succeeds is not one of a blocked address. -/
def CutsOff (s : Process) : ProcessEvent → Prop
  | .conn (.handshakeFailed ip) =>
    s.Shaking ip → (s.server.security.recordTlsFailure ip).Blocked ip →
      ∀ t ∈ s.server.tasks, t.ip = ip → t.phase ≠ .serving
  | .conn (.handshakeOk ip) => s.Shaking ip → ¬ s.server.security.Blocked ip
  | _ => True

variable {C} {s s' : Process}

/-- What a request does: the connections stay, and the request is taken. -/
theorem step_request {t : ConnTask} {env : Environment} {req : Request}
    (hs : s.step C (.request t env req) = some s') :
    t ∈ s.server.tasks ∧ t.phase = .serving ∧ s'.server = s.server ∧
      ∃ service, s'.requests = ⟨t.ip, (s.server.security.blockedIps t.ip).isSome, service⟩ :: s.requests := by
  simp only [step] at hs
  split at hs
  · rename_i ht
    split at hs
    · cases hs; exact ⟨ht.2.1, ht.2.2, rfl, _, rfl⟩
    · cases hs; exact ⟨ht.2.1, ht.2.2, rfl, _, rfl⟩
  · cases hs

theorem step_conn {e : ServerEvent} (hs : s.step C (.conn e) = some s') :
    s.down = false ∧ s.server.step e = some s'.server ∧ s'.requests = s.requests := by
  simp only [step] at hs
  split at hs
  · cases hs
  · rename_i hdown
    obtain ⟨server, hserver, rfl⟩ := Option.map_eq_some_iff.mp hs
    exact ⟨by simpa using hdown, hserver, rfl⟩

theorem cut_handshakeFailed {ip : IpAddr} (h : s.Cut) (hip : s.Shaking ip)
    (hserver : s'.server = { s.server with
      security := s.server.security.recordTlsFailure ip
      tasks := ⟨ip, .https, .failed⟩ :: s.server.tasks.erase ⟨ip, .https, .handshake⟩ }) :
    s'.Cut ↔ s.CutsOff (.conn (.handshakeFailed ip)) := by
  obtain ⟨-, -, -, hother⟩ := s.server.security.recordTlsFailure_frame ip
  simp only [Cut, CutsOff, hserver]
  constructor
  · intro hcut _ hb t ht heq hserving
    have hkept : t ∈ s.server.tasks.erase ⟨ip, .https, .handshake⟩ :=
      (List.mem_erase_of_ne (by rintro rfl; cases hserving)).mpr ht
    exact hcut t (List.mem_cons_of_mem _ hkept) hserving (heq ▸ hb)
  · intro hlast t ht hserving hb
    rcases List.mem_cons.mp ht with rfl | ht
    · cases hserving
    · have ht := List.mem_of_mem_erase ht
      by_cases heq : t.ip = ip
      · exact hlast hip (heq ▸ hb) t ht heq hserving
      · rw [SecurityChecker.Blocked, (hother t.ip heq).2] at hb
        exact h t ht hserving hb

theorem cut_handshakeOk {ip : IpAddr} (h : s.Cut) (hip : s.Shaking ip)
    (hserver : s'.server = { s.server with
      tasks := ⟨ip, .https, .serving⟩ :: s.server.tasks.erase ⟨ip, .https, .handshake⟩ }) :
    s'.Cut ↔ s.CutsOff (.conn (.handshakeOk ip)) := by
  simp only [Cut, CutsOff, hserver]
  constructor
  · intro hcut _
    exact hcut _ List.mem_cons_self rfl
  · intro hlast t ht hserving
    rcases List.mem_cons.mp ht with rfl | ht
    · exact hlast hip
    · exact h t (List.mem_of_mem_erase ht) hserving

/-- What a connection event leaves of the blocked addresses' connections. -/
theorem cut_conn {e : ServerEvent} (h : s.Cut) (hs : s.step C (.conn e) = some s') :
    s'.Cut ↔ s.CutsOff (.conn e) := by
  obtain ⟨hdown, hserver, -⟩ := step_conn hs
  have hmoves := Server.moves_of_step hserver
  generalize hs' : s'.server = server' at hmoves
  cases hmoves with
  | dropped =>
    refine iff_of_true ?_ trivial
    rw [Cut, hs']
    exact h
  | @refused l ip hp hr =>
    refine iff_of_true (fun t ht hserving => ?_) trivial
    rw [hs'] at ht ⊢
    rw [SecurityChecker.Blocked, (s.server.security.acquire_same ip).blocked]
    exact h t ht hserving
  | @accepted l ip hp hr =>
    refine iff_of_true (fun t ht hserving => ?_) trivial
    rw [hs'] at ht ⊢
    rw [SecurityChecker.Blocked, (s.server.security.acquire_same ip).blocked]
    rcases List.mem_cons.mp ht with rfl | ht
    · exact fun hb => hr (SecurityChecker.refuses_iff.mpr (.inr hb))
    · exact h t ht hserving
  | handshakeOk ht => exact cut_handshakeOk h ⟨hdown, ht⟩ hs'
  | handshakeFailed ht => exact cut_handshakeFailed h ⟨hdown, ht⟩ hs'
  | @finished t ht hph =>
    refine iff_of_true (fun u hu hserving => ?_) trivial
    rw [hs'] at hu ⊢
    rw [SecurityChecker.Blocked, (s.server.security.release_same t.ip).blocked]
    exact h u (List.mem_of_mem_erase hu) hserving

/-- A request finds no blocked address on a served connection, and cuts nothing. -/
theorem step_cut_refused {e : ProcessEvent} (h : s.Cut ∧ s.Refused) (hs : s.step C e = some s') :
    s'.Cut ∧ s'.Refused ↔ s.CutsOff e := by
  obtain ⟨hcut, href⟩ := h
  cases e with
  | conn e =>
    have href' : s'.Refused := by
      rw [Refused, (step_conn hs).2.2]
      exact href
    rw [and_iff_left href', cut_conn hcut hs]
  | request t env req =>
    obtain ⟨ht, hserving, hserver, service, hreq⟩ := step_request hs
    refine iff_of_true ⟨?_, fun r hr hb => ?_⟩ trivial
    · rw [Cut, hserver]
      exact hcut
    · rw [hreq] at hr
      rcases List.mem_cons.mp hr with rfl | hr
      · exact absurd hb (hcut t ht hserving)
      · exact href r hr hb

theorem cut_start {handler : Handler} {maxPerIp : Nat} {flags : SecurityFlags} {maxConns : Nat} :
    (start handler maxPerIp flags maxConns).Cut ∧ (start handler maxPerIp flags maxConns).Refused :=
  ⟨fun _ ht => (nomatch ht), fun _ hr => (nomatch hr)⟩

/-- The runs in which no connection of a blocked address is ever served. -/
theorem throughout_cut_iff {handler : Handler} {maxPerIp : Nat} {flags : SecurityFlags} {maxConns : Nat}
    {es : List ProcessEvent} :
    Throughout (step C) (fun s => s.Cut ∧ s.Refused) (start handler maxPerIp flags maxConns) es ↔
      Along (step C) CutsOff (start handler maxPerIp flags maxConns) es := by
  refine throughout_iff_along (I := fun _ => True) (fun _ _ _ _ _ => trivial)
    (fun _ _ _ _ h hs => step_cut_refused h hs) ?_ trivial cut_start
  intro s e hs
  cases e with
  | request t env req => trivial
  | conn e =>
    cases e with
    | accept l ip => trivial
    | finish t => trivial
    | handshakeOk ip =>
      rintro ⟨hdown, ht⟩
      simp [step, hdown, Server.step, ht] at hs
    | handshakeFailed ip =>
      rintro ⟨hdown, ht⟩
      simp [step, hdown, Server.step, ht] at hs

/-- **Blocked addresses get no service** in a run whose blocks each come when no connection
of the address is served, and in which no blocked address completes a handshake. -/
theorem blocked_without_service {C : Crates} {handler : Handler} {maxPerIp : Nat} {flags : SecurityFlags}
    {maxConns : Nat} {es : List ProcessEvent} {s : Process}
    (h : Along (step C) CutsOff (start handler maxPerIp flags maxConns) es)
    (hrun : exec (step C) (start handler maxPerIp flags maxConns) es = some s) : s.Refused :=
  (exec_inv_along (I := fun s => s.Cut ∧ s.Refused)
    (fun _ _ _ h hP hs => (step_cut_refused h hs).mpr hP) cut_start h hrun).2

/-- An address whose only connection failed: it is blocked, and another address is served. -/
theorem blocked_without_service_single :
    ∃ s, exec (step .sample) (start (.single "h" { backends := ["http://a"] }) 100 { maxTlsFailures := 1 } 10)
        [.conn (.accept .https (.v4 1)), .conn (.handshakeFailed (.v4 1)), .conn (.accept .http (.v4 2)),
          .request ⟨.v4 2, .http, .serving⟩ (Handler.replying ⟨200, [], []⟩) (.getRoot "h" [])] = some s ∧
      s.server.security.Blocked (.v4 1) ∧ s.requests.length = 1 ∧ s.Refused := by
  obtain ⟨s, hs⟩ : ∃ s, exec (step .sample)
      (start (.single "h" { backends := ["http://a"] }) 100 { maxTlsFailures := 1 } 10)
      [.conn (.accept .https (.v4 1)), .conn (.handshakeFailed (.v4 1)), .conn (.accept .http (.v4 2)),
        .request ⟨.v4 2, .http, .serving⟩ (Handler.replying ⟨200, [], []⟩) (.getRoot "h" [])] = some s := ⟨_, rfl⟩
  refine ⟨s, hs, ?_, ?_, blocked_without_service ?_ hs⟩
  · cases hs; rfl
  · cases hs; rfl
  · refine ⟨trivial, fun s₁ h₁ => ?_⟩
    cases h₁
    refine ⟨fun _ _ => ?_, fun _ _ => ⟨trivial, fun _ _ => ⟨trivial, fun _ _ => trivial⟩⟩⟩
    show ∀ t ∈ [(⟨.v4 1, .https, .handshake⟩ : ConnTask)], t.ip = .v4 1 → t.phase ≠ .serving
    decide

/-- **A connection accepted before the block** is still served after it. -/
theorem blocked_served :
    ¬ ∀ (C : Crates) (handler : Handler) (maxPerIp : Nat) (flags : SecurityFlags) (maxConns : Nat)
        (es : List ProcessEvent) (s : Process),
      exec (step C) (start handler maxPerIp flags maxConns) es = some s → s.Refused := by
  intro h
  obtain ⟨s, hs⟩ : ∃ s, exec (step .sample)
      (start (.single "h" { backends := ["http://a"] }) 100 { maxTlsFailures := 1 } 10)
      [.conn (.accept .http (.v4 1)), .conn (.accept .https (.v4 1)), .conn (.handshakeFailed (.v4 1)),
        .request ⟨.v4 1, .http, .serving⟩ (Handler.replying ⟨200, [], []⟩) (.getRoot "h" [])] = some s := ⟨_, rfl⟩
  have hrefused := h _ _ _ _ _ _ s hs
  cases hs
  cases hrefused _ List.mem_cons_self rfl

end Process

end Curf
