import Curf.Proxy.Handle

/-!
# Extra headers on responses

The extra headers of a domain are put on what comes from the static files or from a
backend by HTTP. The other responses do not get them, and a name that is configured
twice keeps its last value only. `extra_headers_iff` says exactly when a response has
all that are configured.
-/

namespace Curf

open Lib Lib.Multimap

namespace Handler

variable (C : Crates) (env : Environment) (p : Handler) (peer : IpAddr) (req : Request) (isTls : Bool)

/-- The headers of the response, where `handle` returns it without the extra headers. -/
def bareHeaders : Option HeaderMap :=
  match p.stage C env peer req isTls with
  | .limited => some textErrorHeaders
  | .filtered _ => some htmlErrorHeaders
  | .redirected => some [("location", location C req)]
  | .upgraded => some (((switched (resultOf (p.exchangeOf C env peer req))).map (·.headers)).getD textErrorHeaders)
  | .plain =>
    match p.serveStatic C env req with
    | .ok (some _) => none
    | _ => if (resultOf (p.exchangeOf C env peer req)).isSome then none else some htmlErrorHeaders

/-- The valid configured headers are among those of a response without extra headers;
otherwise each is the last of its name. -/
def CarriesExtra : Prop :=
  match p.bareHeaders C env peer req isTls with
  | some headers => ∀ h ∈ p.extraOf C req, h ∈ headers
  | none => ∀ h ∈ p.extraOf C req, last (p.extraOf C req) h.1 = some h.2

variable {C env p peer req isTls} {out : Outcome}

/-- The headers of the response: those it would have anyway, or with the extra headers
put on some others. -/
theorem exit_headers {x : Exit} (h : p.exit C env peer req isTls = .ok x) :
    match p.bareHeaders C env peer req isTls with
    | some headers => x.headers = headers
    | none => ∃ base, x.headers = putAll base (p.extraOf C req) := by
  have hways := exits C env p peer req isTls
  rw [h] at hways
  unfold bareHeaders
  cases hways with
  | limited hstage => rw [hstage]
  | filtered hstage => rw [hstage]
  | redirected hstage => rw [hstage]
  | switched hstage hroom hreply => simp only [hstage, hreply, Option.map_some, Option.getD_some]
  | rejected hstage hroom hreply => simp only [hstage, hreply, Option.map_none, Option.getD_none]
  | served hstage hstatic =>
    simp only [hstage, hstatic]
    exact ⟨_, rfl⟩
  | proxied hstage hstatic hroom hreply =>
    simp only [hstage, hstatic, hreply, Option.isSome_some, if_true]
    exact ⟨_, rfl⟩
  | unreachable hstage hstatic hroom hreply => simp [hstage, hstatic, hreply]

/-- **When a response has the extra headers**, all the valid ones of its domain. -/
theorem extra_headers_iff {cfg : DomainConfig} (hcfg : p.configOf C req = some cfg)
    (hrun : p.handle C env peer req isTls = .ok out) :
    (∀ h ∈ cfg.extraHeaders C, h ∈ out.response.headers) ↔ p.CarriesExtra C env peer req isTls := by
  have hextra : p.extraOf C req = cfg.extraHeaders C := by rw [extraOf, hcfg]; rfl
  have hheaders := exit_headers (exit_of_handle hrun)
  rw [CarriesExtra, hextra]
  cases hb : p.bareHeaders C env peer req isTls with
  | some headers =>
    rw [hb] at hheaders
    rw [← hheaders]
    rfl
  | none =>
    rw [hb] at hheaders
    obtain ⟨base, hbase⟩ := hheaders
    have hout : out.response.headers = putAll base (cfg.extraHeaders C) := hextra ▸ hbase
    rw [hout]
    exact forall₂_congr fun h hmem => mem_putAll_of_mem hmem

/-- A site with one extra header. -/
def hstsSite (redirectToHttps : Bool) : DomainConfig where
  backends := ["http://a"]
  headers := [⟨"strict-transport-security", "max-age=1"⟩]
  redirectToHttps

/-- A response from a backend. -/
theorem extra_headers_proxied :
    ∃ out, (Handler.single "h" (hstsSite false)).handle .sample (replying ⟨200, [], []⟩) (.v4 1) (.getRoot "h" [])
        false = .ok out ∧
      ∀ h ∈ (hstsSite false).extraHeaders .sample, h ∈ out.response.headers := by
  obtain ⟨out, hout⟩ : ∃ out, (Handler.single "h" (hstsSite false)).handle .sample
    (replying ⟨200, [], []⟩) (.v4 1) (.getRoot "h" []) false = .ok out := ⟨_, rfl⟩
  refine ⟨out, hout, (extra_headers_iff rfl hout).mpr ?_⟩
  show ∀ h ∈ (hstsSite false).extraHeaders .sample,
    last ((hstsSite false).extraHeaders .sample) h.1 = some h.2
  decide

/-- **The redirect to HTTPS** has no extra headers. -/
theorem extra_headers_missing :
    ¬ ∀ (C : Crates) (env : Environment) (p : Handler) (peer : IpAddr) (req : Request) (isTls : Bool)
        (cfg : DomainConfig) (out : Outcome), p.configOf C req = some cfg →
      p.handle C env peer req isTls = .ok out → ∀ h ∈ cfg.extraHeaders C, h ∈ out.response.headers := by
  intro h
  obtain ⟨out, hout⟩ : ∃ out, (Handler.single "h" (hstsSite true)).handle .sample
    (replying ⟨200, [], []⟩) (.v4 1) (.getRoot "h" []) false = .ok out := ⟨_, rfl⟩
  have hall := h .sample (replying ⟨200, [], []⟩) _ (.v4 1) _ false (hstsSite true) out rfl hout
  cases hout
  exact absurd (hall _ List.mem_cons_self) (by decide)

end Handler

end Curf
