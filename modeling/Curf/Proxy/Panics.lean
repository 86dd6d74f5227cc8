import Curf.Proxy.Handle

/-!
# Requests that end the process

Release builds abort on a panic. `handle_returns_iff` lists the requests that reach
one: those for a static file whose modification time has no date, redirects to a
location that is no header value, and header maps that are full.
-/

namespace Curf

open Lib Lib.Multimap

namespace Handler

variable (C : Crates) (env : Environment) (p : Handler) (peer : IpAddr) (req : Request) (isTls : Bool)

/-- The request reads a static file whose modification time has no date. -/
def ReadsUndated : Prop :=
  req.method = .get ∧ ∃ sf path, p.staticServers (hostOf C.caseTable req.headers) = some sf ∧
    StaticFileServer.servedFile C env.fs sf (utf8 req.path) = some path ∧
    StaticFileServer.UndatedFile C env.fs path req.headers

/-- Nothing on the request's way through `handle` panics. -/
def Unharmed : Prop :=
  match p.stage C env peer req isTls with
  | .limited | .filtered _ => True
  | .redirected => C.validValue (location C req) = true
  | .upgraded => ¬ p.Overfull C env peer req
  | .plain =>
    ¬ p.ReadsUndated C env req ∧
      (∀ resp, p.serveStatic C env req = .ok (some resp) → ¬ p.OverfullWith C req resp.headers) ∧
      (p.serveStatic C env req = .ok none →
        ¬ p.Overfull C env peer req ∧
          ∀ reply, resultOf (p.exchangeOf C env peer req) = some reply → ¬ p.OverfullWith C req reply.headers)

variable {C env p peer req isTls}

theorem serveStatic_eq_error_iff {e : Panic} :
    p.serveStatic C env req = .error e ↔ e = .httpDate ∧ p.ReadsUndated C env req := by
  unfold serveStatic ReadsUndated
  cases p.staticServers (hostOf C.caseTable req.headers) with
  | none => simp
  | some sf =>
    dsimp only
    rw [StaticFileServer.serve_eq_error_iff]
    simp

theorem not_readsUndated {r : Option Response} (h : p.serveStatic C env req = .ok r) :
    ¬ p.ReadsUndated C env req := by
  intro hundated
  rw [serveStatic_eq_error_iff.mpr ⟨rfl, hundated⟩] at h
  cases h

theorem exit_ok_iff : (∃ x, p.exit C env peer req isTls = .ok x) ↔ p.Unharmed C env peer req isTls := by
  have hways := exits C env p peer req isTls
  generalize p.exit C env peer req isTls = r at hways
  unfold Unharmed
  cases hways with
  | limited hstage => simp [hstage]
  | filtered hstage => simp [hstage]
  | redirected hstage hvalid => simp [hstage, hvalid]
  | badLocation hstage hvalid => simp [hstage, hvalid]
  | upgradeFull hstage hfull => simp [hstage, hfull]
  | switched hstage hroom => simp [hstage, hroom]
  | rejected hstage hroom => simp [hstage, hroom]
  | unserved hstage hstatic => simp [hstage, (serveStatic_eq_error_iff.mp hstatic).2]
  | served hstage hstatic hfits => simp [hstage, hstatic, not_readsUndated hstatic, hfits]
  | servedFull hstage hstatic hfull => simp [hstage, hstatic, hfull]
  | proxyFull hstage hstatic hfull => simp [hstage, hstatic, hfull]
  | proxied hstage hstatic hroom hreply hfits =>
    simp [hstage, hstatic, not_readsUndated hstatic, hroom, hreply, hfits]
  | proxiedFull hstage hstatic hroom hreply hfull => simp [hstage, hstatic, hreply, hfull]
  | unreachable hstage hstatic hroom hreply => simp [hstage, hstatic, not_readsUndated hstatic, hroom, hreply]

/-- The ways in which a request can panic. -/
theorem exit_error {e : Panic} (h : p.exit C env peer req isTls = .error e) :
    e = .response ∨ e = .httpDate ∨ e = .headerMap := by
  have hways := exits C env p peer req isTls
  rw [h] at hways
  cases hways with
  | badLocation => exact .inl rfl
  | unserved hstage hstatic => exact .inr (.inl (serveStatic_eq_error_iff.mp hstatic).1)
  | upgradeFull => exact .inr (.inr rfl)
  | servedFull => exact .inr (.inr rfl)
  | proxyFull => exact .inr (.inr rfl)
  | proxiedFull => exact .inr (.inr rfl)

/-- **When a request gets a response**: exactly when nothing on its way panics. An index
out of bounds or a division by zero is never met. -/
theorem handle_returns_iff (C : Crates) (env : Environment) (p : Handler) (peer : IpAddr) (req : Request)
    (isTls : Bool) :
    ((∃ out, p.handle C env peer req isTls = .ok out) ↔ p.Unharmed C env peer req isTls) ∧
      p.handle C env peer req isTls ≠ .error .indexOutOfBounds ∧
      p.handle C env peer req isTls ≠ .error .divisionByZero := by
  have herror {e : Panic} (h : p.handle C env peer req isTls = .error e) :
      e = .response ∨ e = .httpDate ∨ e = .headerMap := by
    have hexit : p.exit C env peer req isTls = .error e := by
      rw [← handle_exit, h]
      rfl
    exact exit_error hexit
  refine ⟨exists_handle_iff.trans exit_ok_iff, fun h => ?_, fun h => ?_⟩
  · have := herror h
    simp at this
  · have := herror h
    simp at this

/-- An index page last modified at the time `t`. -/
def indexPage (t : SystemTime) : FileSystem where
  metadata path :=
    if path = .ofString "/srv" then some ⟨4096, true, some 0⟩
    else if path = .ofString "/srv/index.html" then some ⟨1, false, some t⟩
    else none
  read path := if path = .ofString "/srv/index.html" then some [65] else none
  readDir _ := []

/-- **A file from 1969** ends the process. -/
theorem handle_panics_on_old_file :
    ¬ ∀ (C : Crates) (env : Environment) (p : Handler) (peer : IpAddr) (req : Request) (isTls : Bool),
      ∃ out, p.handle C env peer req isTls = .ok out := by
  intro h
  obtain ⟨x, hx⟩ := exists_handle_iff.mp (h .sample ⟨0, 0, indexPage (-1), ⟨fun _ => false, fun _ _ => none⟩⟩
    (.single "h" { staticFiles := some { root := "/srv" } }) (.v4 1) (.getRoot "h" []) false)
  cases hx

end Handler

end Curf
