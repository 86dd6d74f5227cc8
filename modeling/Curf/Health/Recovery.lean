import Curf.Balancer.Complete
import Curf.Health.DeadBackend

/-!
# Backends whose checks succeed again

Only the health checker reports failures to the load balancer. From the time on when no
check of a URL fails, the circuit of its backend is closed by the next check, or before it
by a `select` that half-opens it, and stays closed: `recovered_backend_in` says that this
takes `maxGap` at most, whatever the other backends do, and that `select` then always has
a backend to return.
-/

namespace Curf

open Lib LoadBalancer

namespace HealthRun

variable {cfg : DomainConfig} {i f : Nat} {url : String} {s s' : HealthRun}

/-- The next check of a backend is at most a gap away at any time. -/
theorem Timed.since_now (h : Timed cfg s) : Since cfg i s.now s := by
  have hdeadline := h.deadline
  refine ⟨Nat.le_refl _, ?_⟩
  cases hphase : s.phase with
  | waiting => exact ⟨hdeadline, Nat.le_add_right ..⟩
  | checking j since =>
    obtain ⟨hle, -, -⟩ := h.check j since hphase
    dsimp only
    split
    · rename_i hij
      have hrest : (cfg.backends.length - j) * cfg.healthCheck.timeout ≤ restOfPass cfg i :=
        Nat.mul_le_mul_right _ (by omega)
      exact ⟨hdeadline, by omega⟩
    · omega

/-- The event is no failed check of `url`, in whichever position it stands. -/
def Spares (cfg : DomainConfig) (url : String) (e : HealthEvent) : Prop :=
  ∀ j, cfg.backends[j]? = some url → e ≠ .checked j false

/-- Since the time `f`, no check of the backend in position `i` has ended, or its circuit
is closed. -/
structure Recovering (cfg : DomainConfig) (i f : Nat) (s : HealthRun) : Prop where
  timed : Timed cfg s
  urls : s.lb.urls = cfg.backends
  back : Since cfg i f s ∨ circuitAt s.lb.backends i = false

theorem urls_start {now : Nat} (hs : start cfg now = some s) : s.lb.urls = cfg.backends := by
  unfold start at hs
  split at hs
  · cases hs
    exact urls_new cfg
  · cases hs

theorem step_urls {e : HealthEvent} (hs : s.step cfg e = some s') : s'.lb.urls = s.lb.urls := by
  cases moves_of_step hs with
  | passed => rfl
  | ticked => rfl
  | @checked j since ok u hphase hu =>
    cases ok with
    | true => exact success_urls _
    | false => exact failure_urls _
  | selected => exact select_urls ..
  | dropped => exact dropGuard_urls
  | served => exact success_urls _

/-- Any state of a run is the first of its recovery. -/
theorem recovering_of_run {now : Nat} {s₀ : HealthRun} (h₀ : start cfg now = some s₀) {es : List HealthEvent}
    (hrun : exec (HealthRun.step cfg) s₀ es = some s) : Recovering cfg i s.now s := by
  have hinv : Timed cfg s ∧ s.lb.urls = cfg.backends :=
    exec_inv (I := fun s => Timed cfg s ∧ s.lb.urls = cfg.backends)
      (fun _ _ _ h hs => ⟨h.1.step hs, (step_urls hs).trans h.2⟩) ⟨timed_start h₀, urls_start h₀⟩ hrun
  exact ⟨hinv.1, hinv.2, .inl hinv.1.since_now⟩

/-- Nothing but a failed check of the URL opens its circuit. -/
theorem step_circuitAt_closed (hfind : s.lb.find url = some i) {e : HealthEvent} (he : Spares cfg url e)
    (hs : s.step cfg e = some s') (hclosed : circuitAt s.lb.backends i = false) :
    circuitAt s'.lb.backends i = false := by
  cases moves_of_step hs with
  | passed => exact hclosed
  | ticked => exact hclosed
  | @checked j since ok u hphase hu =>
    cases ok with
    | true => exact success_circuitAt_closed hclosed
    | false =>
      have hne : s.lb.find u ≠ some i := fun hf => by
        have hsame : some u = some url := (urls_of_find hf).symm.trans (urls_of_find hfind)
        cases hsame
        exact he j hu rfl
      exact (failure_circuitAt_other hne).trans hclosed
  | selected => exact select_circuitAt_closed hclosed
  | dropped => exact dropGuard_circuitAt.trans hclosed
  | served => exact success_circuitAt_closed hclosed

/-- One event of a recovery. The check of the backend itself closes the circuit, and any
other leaves the time of its last check as it is. -/
theorem Recovering.step (h : Recovering cfg i f s) (hfirst : cfg.backends.findIdx? (· = url) = some i)
    {e : HealthEvent} (he : Spares cfg url e) (hs : s.step cfg e = some s') : Recovering cfg i f s' := by
  have hfind : s.lb.find url = some i := by rw [find_eq, h.urls, hfirst]
  have hurl : cfg.backends[i]? = some url := h.urls ▸ urls_of_find hfind
  have hi : i < cfg.backends.length := (List.getElem?_eq_some_iff.mp hurl).1
  refine ⟨h.timed.step hs, (step_urls hs).trans h.urls, ?_⟩
  by_cases hown : e = .checked i true
  · subst hown
    cases moves_of_step hs with
    | @checked j since ok u hphase hu =>
      rw [hurl] at hu
      cases hu
      obtain ⟨be, hbe⟩ := backend_of_find hfind
      right
      show circuitAt (s.lb.success url).backends i = false
      rw [circuitAt, success_found hfind hbe]
      rfl
  · have hother : ∀ ok, e ≠ .checked i ok := fun ok => by
      cases ok with
      | true => exact hown
      | false => exact he i hurl
    exact h.back.imp (fun hf => hf.step h.timed hi hother hs) (step_circuitAt_closed hfind he hs)

/-- **A backend whose checks succeed is back in rotation** once the longest time between
two checks has passed, and the domain is served from then on. -/
theorem recovered_backend_in {now : Nat} {s₀ s₁ : HealthRun}
    (hfirst : cfg.backends.findIdx? (· = url) = some i) (h₀ : start cfg now = some s₀)
    {es fs : List HealthEvent} (hpast : exec (HealthRun.step cfg) s₀ es = some s₁)
    (hrun : exec (HealthRun.step cfg) s₁ fs = some s) (hok : ∀ e ∈ fs, Spares cfg url e)
    (hgap : s₁.now + maxGap cfg i < s.now) :
    circuitAt s.lb.backends i = false ∧
      AvailableAt s.lb.backends (unixNow s.now) i ∧
      (s.lb.cursor.toNat + cfg.backends.length < 2 ^ 64 →
        ∀ ip, (s.lb.select ip (unixNow s.now)).1 ≠ none) := by
  have h : Recovering cfg i s₁.now s :=
    exec_inv_along (I := Recovering cfg i s₁.now) (P := fun _ e => Spares cfg url e)
      (fun _ _ _ h he hs => h.step hfirst he hs) (recovering_of_run h₀ hpast) (Along.of_forall fun _ => hok) hrun
  have hclosed : circuitAt s.lb.backends i = false :=
    h.back.resolve_left fun hf => by
      have := h.timed.checked_gap hf
      omega
  have hlen : s.lb.backends.length = cfg.backends.length := by
    rw [← h.urls, urls, List.length_map]
  have hfind : s.lb.find url = some i := by rw [find_eq, h.urls, hfirst]
  obtain ⟨be, hbe⟩ := backend_of_find hfind
  have hav : AvailableAt s.lb.backends (unixNow s.now) i :=
    availableAt_of_closed (List.getElem?_eq_some_iff.mp hbe).1 hclosed
  refine ⟨hclosed, hav, fun hcursor ip hnone => ?_⟩
  rw [select_fst, Option.map_eq_none_iff, pick_eq_none_iff (by rw [hlen]; exact hcursor)] at hnone
  exact hnone i hav

/-- Five failed checks of a single backend, and a sixth one that succeeds as late as it
can: when a whole gap has passed, the circuit is still open, and a nanosecond later it is
closed. -/
theorem recovered_backend_in_late :
    ∃ s₀ s₁ m s, start (oneBackend 15) 0 = some s₀ ∧
      exec (HealthRun.step (oneBackend 15)) s₀ ((fiveFailures (15 * 10 ^ 9)).take 14) = some s₁ ∧
      exec (HealthRun.step (oneBackend 15)) s₁ [.pass (15 * 10 ^ 9), .tick, .pass (5 * 10 ^ 9)] = some m ∧
      m.now = s₁.now + maxGap (oneBackend 15) 0 ∧ circuitAt m.lb.backends 0 = true ∧
      exec (HealthRun.step (oneBackend 15)) s₁
        [.pass (15 * 10 ^ 9), .tick, .pass (5 * 10 ^ 9), .checked 0 true, .pass 1] = some s ∧
      circuitAt s.lb.backends 0 = false := by
  have h₀ : start (oneBackend 15) 0 = some ⟨0, 0, .waiting, .new (oneBackend 15)⟩ := rfl
  have hs₁ : exec (HealthRun.step (oneBackend 15)) ⟨0, 0, .waiting, .new (oneBackend 15)⟩
      ((fiveFailures (15 * 10 ^ 9)).take 14) =
        some ⟨60 * 10 ^ 9, 75 * 10 ^ 9, .waiting, ⟨[⟨"http://a", 0, 5, 60, true⟩], .roundRobin, 0⟩⟩ := by decide
  have hm : exec (HealthRun.step (oneBackend 15))
      ⟨60 * 10 ^ 9, 75 * 10 ^ 9, .waiting, ⟨[⟨"http://a", 0, 5, 60, true⟩], .roundRobin, 0⟩⟩
      [.pass (15 * 10 ^ 9), .tick, .pass (5 * 10 ^ 9)] =
        some ⟨80 * 10 ^ 9, 90 * 10 ^ 9, .checking 0 (75 * 10 ^ 9),
          ⟨[⟨"http://a", 0, 5, 60, true⟩], .roundRobin, 0⟩⟩ := by decide
  have hs : exec (HealthRun.step (oneBackend 15))
      ⟨60 * 10 ^ 9, 75 * 10 ^ 9, .waiting, ⟨[⟨"http://a", 0, 5, 60, true⟩], .roundRobin, 0⟩⟩
      [.pass (15 * 10 ^ 9), .tick, .pass (5 * 10 ^ 9), .checked 0 true, .pass 1] =
        some ⟨80 * 10 ^ 9 + 1, 90 * 10 ^ 9, .waiting,
          ⟨[⟨"http://a", 0, 0, 60, false⟩], .roundRobin, 0⟩⟩ := by decide
  have hok : ∀ e ∈ [.pass (15 * 10 ^ 9), .tick, .pass (5 * 10 ^ 9), .checked 0 true, .pass 1],
      Spares (oneBackend 15) "http://a" e := by
    simp [Spares]
  exact ⟨_, _, _, _, h₀, hs₁, hm, by decide, rfl, hs, (recovered_backend_in rfl h₀ hs₁ hs hok (by decide)).1⟩

end HealthRun

end Curf
