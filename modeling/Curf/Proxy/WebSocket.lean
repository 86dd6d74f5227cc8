import Curf.Proxy.Handle

/-!
# WebSocket upgrades

The reply of a backend to an upgrade request is not passed on: `proxy_websocket`
answers a 101 with a 101 of its own, which has no headers, and anything else becomes
a 502 of `handle`. `websocket_transparent_iff` says for which replies the client sees
no difference.
-/

namespace Curf

open Lib

namespace Handler

variable {C : Crates} {env : Environment} {p : Handler} {peer : IpAddr} {req : Request} {isTls : Bool}
  {out : Outcome} {x : Exchange}

/-- The client gets the status and the headers of the reply. -/
def Transparent (resp reply : Response) : Prop :=
  resp.status = reply.status ∧ ∀ h ∈ reply.headers, h ∈ resp.headers

/-- An upgrade request gets to the tunnel or is turned away before. -/
theorem stage_ne_plain (hws : isWebsocketUpgrade req = true) : p.stage C env peer req isTls ≠ .plain := by
  unfold stage
  split
  · exact nofun
  · split
    · exact nofun
    · split
      · exact nofun
      · exact nofun

/-- An upgrade request that has reached a backend is answered by the tunnel. -/
theorem websocket_head (hws : isWebsocketUpgrade req = true) (hrun : p.handle C env peer req isTls = .ok out)
    (hx : out.service = some (.backend x)) :
    out.response.status = ((switched x.reply).map (·.status)).getD 502 ∧
      out.response.headers = ((switched x.reply).map (·.headers)).getD textErrorHeaders := by
  have hways := exits C env p peer req isTls
  rw [exit_of_handle hrun] at hways
  have hservice : out.exit.service = some (.backend x) := hx
  show out.exit.status = _ ∧ out.exit.headers = _
  have hbackend (h : (p.exchangeOf C env peer req).map .backend = some (Service.backend x)) :
      resultOf (p.exchangeOf C env peer req) = x.reply := by
    obtain ⟨y, hy, he⟩ := Option.map_eq_some_iff.mp h
    cases he
    rw [hy]
    rfl
  generalize out.exit = found at hways hservice
  cases hways with
  | limited => cases hservice
  | filtered => cases hservice
  | redirected => cases hservice
  | switched hstage hroom hreply =>
    rw [hbackend hservice] at hreply
    rw [hreply]
    exact ⟨rfl, rfl⟩
  | rejected hstage hroom hreply =>
    rw [hbackend hservice] at hreply
    rw [hreply]
    exact ⟨rfl, rfl⟩
  | served hstage => exact absurd hstage (stage_ne_plain hws)
  | proxied hstage => exact absurd hstage (stage_ne_plain hws)
  | unreachable hstage => exact absurd hstage (stage_ne_plain hws)

/-- **When an upgrade is transparent.** For an upgrade request that has reached a
backend and got a reply: when the reply is a 101 without headers, or a 502 whose
headers are among those of the error that is sent in its place. -/
theorem websocket_transparent_iff {reply : Response} (hws : isWebsocketUpgrade req = true)
    (hrun : p.handle C env peer req isTls = .ok out) (hx : out.service = some (.backend x))
    (hreply : x.reply = some reply) :
    Transparent out.response reply ↔
      (reply.status = 101 ∧ reply.headers = []) ∨
        (reply.status = 502 ∧ ∀ h ∈ reply.headers, h ∈ textErrorHeaders) := by
  obtain ⟨hstatus, hheaders⟩ := websocket_head hws hrun hx
  rw [Transparent, hstatus, hheaders, hreply]
  by_cases hs : reply.status = 101
  · have hswitched : switched (some reply) = some ⟨101, [], []⟩ := by simp [switched, hs]
    rw [hswitched]
    simp [hs, List.eq_nil_iff_forall_not_mem]
  · have hswitched : switched (some reply) = none := by simp [switched, hs]
    rw [hswitched]
    simp [hs, eq_comm]

/-- The upgrade request of the examples. -/
def upgradeRequest : Request := .getRoot "h" [("upgrade", .ofString "websocket")]

/-- A backend that answers 502 in the words of the proxy. -/
theorem websocket_transparent_no_store :
    ∃ out, (Handler.single "h" { backends := ["http://a"] }).handle .sample
        (replying ⟨502, [("cache-control", .ofString "no-store")], []⟩) (.v4 1) upgradeRequest false = .ok out ∧
      Transparent out.response ⟨502, [("cache-control", .ofString "no-store")], []⟩ := by
  obtain ⟨out, hout⟩ : ∃ out, (Handler.single "h" { backends := ["http://a"] }).handle .sample
    (replying ⟨502, [("cache-control", .ofString "no-store")], []⟩) (.v4 1) upgradeRequest false = .ok out := ⟨_, rfl⟩
  obtain ⟨x, hx, hreply⟩ : ∃ x, out.service = some (.backend x) ∧
      x.reply = some ⟨502, [("cache-control", .ofString "no-store")], []⟩ := by
    cases hout
    exact ⟨_, rfl, rfl⟩
  refine ⟨out, hout, (websocket_transparent_iff (by decide) hout hx hreply).mpr (.inr ⟨rfl, ?_⟩)⟩
  simp [textErrorHeaders]

/-- **An upgrade that succeeds** loses its headers on the way. -/
theorem websocket_headers_lost :
    ¬ ∀ (C : Crates) (env : Environment) (p : Handler) (peer : IpAddr) (req : Request) (isTls : Bool)
        (out : Outcome) (x : Exchange) (reply : Response), isWebsocketUpgrade req = true →
      p.handle C env peer req isTls = .ok out → out.service = some (.backend x) → x.reply = some reply →
      Transparent out.response reply := by
  intro h
  obtain ⟨out, hout⟩ : ∃ out, (Handler.single "h" { backends := ["http://a"] }).handle .sample
    (replying ⟨101, [("upgrade", .ofString "websocket")], []⟩) (.v4 1) upgradeRequest false = .ok out := ⟨_, rfl⟩
  have hall := fun x reply => h _ _ _ _ _ _ out x reply (by decide) hout
  cases hout
  exact absurd ((hall _ _ rfl rfl).2 _ List.mem_cons_self) List.not_mem_nil

end Handler

end Curf
