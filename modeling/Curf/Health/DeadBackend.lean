import Curf.Health.Checker

/-!
# Backends whose checks fail

Five failed checks open a backend's circuit, and every further one starts the 30 seconds
anew after which a query half-opens it. Whether the next check comes in time depends on
how long the others take: `dead_backend_out` says when no `select` returns a backend whose
checks all fail, and `maxGap` for which configurations that is so in every run.
-/

namespace Curf

open Lib LoadBalancer

/-! ## The breaker under failed checks -/

/-- The breaker of a backend after `k` failed checks, the last of them at the time `f`. -/
structure Down (k f : Nat) (be : Backend) : Prop where
  closed : k < 5 → be.circuitOpen = false ∧ be.failures = UInt64.ofNat k
  isOpen : 5 ≤ k → be.circuitOpen = true
  last : 0 < k → be.lastFailure = unixNow f

variable {k f : Nat} {be : Backend}

theorem down_new (url : String) (f : Nat) : Down 0 f (.new url) := ⟨fun _ => ⟨rfl, rfl⟩, nofun, nofun⟩

theorem Down.recordFailure (h : Down k f be) (f' : Nat) : Down (k + 1) f' (be.recordFailure (unixNow f')) :=
  have hcounts := Backend.recordFailure_counts h.closed h.isOpen
  ⟨hcounts.1, hcounts.2, fun _ => rfl⟩

theorem Down.release (h : Down k f be) : Down k f be.release := ⟨h.closed, h.isOpen, h.last⟩

/-- A `select` that does not half-open the circuit leaves the breaker as it is. -/
theorem Down.select (h : Down k f be) {lb : LoadBalancer} {ip : Option IpAddr} {now : UInt64} {i : Nat}
    (hbe : lb.backends[i]? = some be) (hshut : be.circuitOpen = true → ¬ lb.HalfOpens ip now i) :
    Down k f (lb.afterSelect ip now i be) := by
  refine ⟨fun hk => ?_, fun hk => ?_, fun hk => (afterSelect_lastFailure ..).trans (h.last hk)⟩
  · obtain ⟨hclosed, hfail⟩ := h.closed hk
    have hsame := afterSelect_of_closed hclosed lb ip now i
    exact ⟨hsame.1, hsame.2.trans hfail⟩
  · have hopen := h.isOpen hk
    have hiff := select_circuitAt lb ip now i
    rw [circuitAt, circuitAt, select_backend hbe, hbe] at hiff
    exact hiff.mpr ⟨hopen, hshut hopen⟩

namespace HealthRun

variable {cfg : DomainConfig} {i : Nat} {s s' : HealthRun}

/-- In every run the checks of the backend in position `i` are at most 29 seconds apart. -/
def Prompt (cfg : DomainConfig) (i : Nat) : Prop := maxGap cfg i ≤ 29 * 10 ^ 9

instance (cfg : DomainConfig) (i : Nat) : Decidable (Prompt cfg i) := inferInstanceAs (Decidable (_ ≤ _))

/-- The event is no `select` that half-opens the circuit of the backend in position `i`:
one that asks it when its last recorded failure is 30 seconds old. -/
def KeepsShut (i : Nat) (s : HealthRun) : HealthEvent → Prop
  | .select ip => circuitAt s.lb.backends i = true → ¬ s.lb.HalfOpens ip (unixNow s.now) i
  | _ => True

/-- The state after `k` failed checks of the backend in position `i`, the last of them
at the time `f`, and without a success. -/
structure Dead (cfg : DomainConfig) (i k f : Nat) (s : HealthRun) : Prop where
  timed : Timed cfg s
  since : 0 < k → Since cfg i f s
  urls : s.lb.urls = cfg.backends
  backend : ∃ be, s.lb.backends[i]? = some be ∧ Down k f be

theorem dead_start {now : Nat} (hs : start cfg now = some s) (hi : i < cfg.backends.length) :
    Dead cfg i 0 0 s := by
  have htimed := timed_start hs
  unfold start at hs
  split at hs
  · cases hs
    refine ⟨htimed, nofun, urls_new cfg, .new cfg.backends[i], ?_, down_new _ _⟩
    simp [LoadBalancer.new, hi]
  · cases hs

/-- At most 29 seconds after its last failed check the backend is not asked for a probe. -/
theorem Dead.not_halfOpens (h : Dead cfg i k f s) (hp : Prompt cfg i) (hk : 5 ≤ k) (ip : Option IpAddr) :
    ¬ s.lb.HalfOpens ip (unixNow s.now) i := by
  obtain ⟨be, hbe, hdown⟩ := h.backend
  have hsince := h.since (by omega)
  have hgap := h.timed.checked_gap hsince
  have hclock := h.timed.clock
  rintro ⟨hav, -⟩
  refine not_availableAt_of_open (by rw [circuitAt, hbe]; exact hdown.isOpen hk) (fun be' hbe' => ?_) hav
  rw [hbe] at hbe'
  cases hbe'
  have hle := hsince.1
  have hnow := unixNow_toNat hclock
  have hf := unixNow_toNat (Nat.lt_of_le_of_lt hle hclock)
  unfold Prompt at hp
  have hsub : unixNow f ≤ unixNow s.now := by
    rw [UInt64.le_iff_toNat_le, hnow, hf]
    omega
  rw [hdown.last (by omega), ← UInt64.not_le, Backend.cbResetSecs_le_iff hsub, hnow, hf]
  omega

theorem Dead.keepsShut (h : Dead cfg i k f s) (hp : Prompt cfg i) (e : HealthEvent) : KeepsShut i s e := by
  cases e with
  | select ip =>
    intro hopen
    refine h.not_halfOpens hp ?_ ip
    obtain ⟨be, hbe, hdown⟩ := h.backend
    rw [circuitAt, hbe] at hopen
    by_contra hk
    have hclosed := (hdown.closed (by omega)).1
    rw [show be.circuitOpen = true from hopen] at hclosed
    cases hclosed
  | _ => trivial

/-- One event: a failed check of the backend counts, and the others leave its breaker
alone. -/
theorem Dead.step (h : Dead cfg i k f s) (hn : cfg.backends.Nodup) {url : String}
    (hurl : cfg.backends[i]? = some url) {e : HealthEvent}
    (he : e ≠ .checked i true ∧ e ≠ .served url) (hshut : KeepsShut i s e) (hs : s.step cfg e = some s') :
    ∃ f', Dead cfg i (k + if e = .checked i false then 1 else 0) f' s' := by
  have htimed := h.timed.step hs
  obtain ⟨be, hbe, hdown⟩ := h.backend
  have hi : i < cfg.backends.length := (List.getElem?_eq_some_iff.mp hurl).1
  have hfind {u : String} (hu : u ≠ url) : s.lb.find u ≠ some i := fun hf => by
    have := urls_of_find hf
    rw [h.urls, hurl] at this
    exact hu (Option.some.inj this).symm
  by_cases hc : e = .checked i false
  · subst hc
    cases moves_of_step hs with
    | @checked j since ok u hphase hu =>
      rw [hurl] at hu
      cases hu
      refine ⟨s.now, htimed, fun _ => since_checked h.timed, (failure_urls _).trans h.urls, ?_⟩
      rw [if_pos rfl]
      have hfound : s.lb.find url = some i := find_of_urls (h.urls ▸ hn) (h.urls ▸ hurl)
      exact ⟨_, failure_found hfound hbe, hdown.recordFailure s.now⟩
  · rw [if_neg hc, Nat.add_zero]
    have hother : ∀ ok, e ≠ .checked i ok := fun ok => by
      cases ok with
      | true => exact he.1
      | false => exact hc
    have hsince : 0 < k → Since cfg i f s' := fun hk => (h.since hk).step h.timed hi hother hs
    suffices hlb : s'.lb.urls = cfg.backends ∧ ∃ be, s'.lb.backends[i]? = some be ∧ Down k f be from
      ⟨f, htimed, hsince, hlb.1, hlb.2⟩
    cases moves_of_step hs with
    | passed => exact ⟨h.urls, be, hbe, hdown⟩
    | ticked => exact ⟨h.urls, be, hbe, hdown⟩
    | @checked j since ok u hphase hu =>
      have hne : u ≠ url := fun hun => by
        obtain ⟨hj, hu⟩ := List.getElem?_eq_some_iff.mp hu
        obtain ⟨hi, hurl⟩ := List.getElem?_eq_some_iff.mp hurl
        have hji := (List.Nodup.getElem_inj_iff hn).mp (hu.trans (hun.trans hurl.symm))
        exact hother ok (by rw [hji])
      cases ok with
      | true => exact ⟨(success_urls _).trans h.urls, be, (success_other (hfind hne)).trans hbe, hdown⟩
      | false => exact ⟨(failure_urls _).trans h.urls, be, (failure_other (hfind hne)).trans hbe, hdown⟩
    | @selected ip =>
      refine ⟨(select_urls ..).trans h.urls, _, select_backend hbe, hdown.select hbe fun hopen => ?_⟩
      exact hshut (by rw [circuitAt, hbe]; exact hopen)
    | @dropped j =>
      refine ⟨dropGuard_urls.trans h.urls, _, dropGuard_backend j hbe, ?_⟩
      split
      · exact hdown.release
      · exact hdown
    | @served u =>
      have hne : u ≠ url := fun hu => he.2 (by rw [hu])
      exact ⟨(success_urls _).trans h.urls, be, (success_other (hfind hne)).trans hbe, hdown⟩

/-- A run counts the failed checks. -/
theorem Dead.run (h : Dead cfg i k f s) (hn : cfg.backends.Nodup) {url : String}
    (hurl : cfg.backends[i]? = some url) {es : List HealthEvent}
    (he : ∀ e ∈ es, e ≠ .checked i true ∧ e ≠ .served url)
    (hshut : Prompt cfg i ∨ Along (HealthRun.step cfg) (KeepsShut i) s es)
    (hrun : exec (HealthRun.step cfg) s es = some s') :
    ∃ f', Dead cfg i (k + es.count (.checked i false)) f' s' := by
  induction es generalizing k f s with
  | nil => cases hrun; exact ⟨f, h⟩
  | cons e es ih =>
    obtain ⟨m, hm, hrun⟩ := exec_cons.mp hrun
    have hhead : KeepsShut i s e := hshut.elim (fun hp => h.keepsShut hp e) (fun ha => ha.1)
    obtain ⟨f', hmid⟩ := h.step hn hurl (he e List.mem_cons_self) hhead hm
    have hrest : Prompt cfg i ∨ Along (HealthRun.step cfg) (KeepsShut i) m es :=
      hshut.imp_right fun ha => ha.2 m hm
    obtain ⟨f'', hend⟩ := ih hmid (fun e he' => he e (List.mem_cons_of_mem _ he')) hrest hrun
    refine ⟨f'', ?_⟩
    rw [List.count_cons]
    simp only [beq_iff_eq]
    rwa [Nat.add_comm (es.count _), ← Nat.add_assoc]

/-- **A backend whose checks fail stays out of rotation** from its fifth failed check on,
if the checks always come in time or no `select` half-opens its circuit. -/
theorem dead_backend_out {now : Nat} {s₀ : HealthRun} (hn : cfg.backends.Nodup) {url : String}
    (hurl : cfg.backends[i]? = some url) (h₀ : start cfg now = some s₀) {es : List HealthEvent}
    {ip : Option IpAddr} (hrun : exec (HealthRun.step cfg) s₀ es = some s)
    (hfail : ∀ e ∈ es, e ≠ .checked i true ∧ e ≠ .served url) (hfive : 5 ≤ es.count (.checked i false))
    (hshut : Prompt cfg i ∨ Along (HealthRun.step cfg) (KeepsShut i) s₀ (es ++ [.select ip])) :
    ∀ j, (s.lb.select ip (unixNow s.now)).1 ≠ some (url, j) := by
  have hi : i < cfg.backends.length := (List.getElem?_eq_some_iff.mp hurl).1
  have hpast : Prompt cfg i ∨ Along (HealthRun.step cfg) (KeepsShut i) s₀ es :=
    hshut.imp_right fun ha => (ha.append hrun).1
  obtain ⟨f, h⟩ := (dead_start h₀ hi).run hn hurl hfail hpast hrun
  rw [Nat.zero_add] at h
  have hnow : KeepsShut i s (.select ip) := hshut.elim (fun hp => h.keepsShut hp _) fun ha => (ha.append hrun).2.1
  intro j hsel
  rw [select_fst] at hsel
  obtain ⟨j', hpick, he⟩ := Option.map_eq_some_iff.mp hsel
  obtain ⟨hu, rfl⟩ := Prod.mk.inj he
  obtain ⟨be, hbe, hdown⟩ := h.backend
  -- the URLs are distinct, so that the backend returned is the one in position `i`
  obtain ⟨bj, hbj, -⟩ := pick_available hpick
  have hj : s.lb.urls[j']? = some url := by
    rw [← hu, urls_getElem?, hbj, urlAt, hbj]
    rfl
  rw [h.urls] at hj
  obtain ⟨hlt, hj⟩ := List.getElem?_eq_some_iff.mp hj
  obtain ⟨hi, hurl⟩ := List.getElem?_eq_some_iff.mp hurl
  have hij := (List.Nodup.getElem_inj_iff hn).mp (hj.trans hurl.symm)
  subst hij
  exact hnow (by rw [circuitAt, hbe]; exact hdown.isOpen hfive) (halfOpens_of_pick hpick)

/-- A domain with one backend, checked every `intervalSecs` seconds. -/
def oneBackend (intervalSecs : UInt64) : DomainConfig where
  backends := ["http://a"]
  healthCheck := { intervalSecs }

/-- Five checks that fail at once, `interval` nanoseconds apart. -/
def fiveFailures (interval : Nat) : List HealthEvent :=
  (List.replicate 5 [.tick, .checked 0 false, .pass interval]).flatten

theorem fiveFailures_fail (interval : Nat) (es : List HealthEvent) (h : ∀ e ∈ es, e = .tick ∨ ∃ d, e = .pass d) :
    (∀ e ∈ fiveFailures interval ++ es, e ≠ .checked 0 true ∧ e ≠ .served "http://a") ∧
      5 ≤ (fiveFailures interval ++ es).count (.checked 0 false) := by
  refine ⟨fun e he => ?_, ?_⟩
  · rcases List.mem_append.mp he with he | he
    · obtain ⟨l, hl, he⟩ := List.mem_flatten.mp he
      rw [List.eq_of_mem_replicate hl] at he
      simp only [List.mem_cons, List.not_mem_nil, or_false] at he
      rcases he with rfl | rfl | rfl <;> exact ⟨nofun, nofun⟩
    · rcases h e he with rfl | ⟨d, rfl⟩ <;> exact ⟨nofun, nofun⟩
  · rw [List.count_append]
    have : (fiveFailures interval).count (.checked 0 false) = 5 := by simp [fiveFailures, List.replicate]
    omega

/-- With the default interval of 15 seconds a single backend stays out. -/
theorem dead_backend_out_default :
    ∃ s₀ s, start (oneBackend 15) 0 = some s₀ ∧
      exec (HealthRun.step (oneBackend 15)) s₀ (fiveFailures (15 * 10 ^ 9)) = some s ∧
      ∀ j, (s.lb.select none (unixNow s.now)).1 ≠ some ("http://a", j) := by
  obtain ⟨s₀, h₀⟩ : ∃ s₀, start (oneBackend 15) 0 = some s₀ := ⟨_, rfl⟩
  obtain ⟨s, hs⟩ : ∃ s, exec (HealthRun.step (oneBackend 15)) s₀ (fiveFailures (15 * 10 ^ 9) ++ []) = some s := by
    cases h₀
    exact ⟨_, rfl⟩
  obtain ⟨hfail, hfive⟩ := fiveFailures_fail (15 * 10 ^ 9) [] nofun
  exact ⟨s₀, s, h₀, hs, dead_backend_out (by decide) rfl h₀ hs hfail hfive (.inl (by decide))⟩

/-- **A check that takes a second too long.** With an interval of 29 seconds the sixth
check has not ended when the fifth is 30 seconds old. -/
theorem dead_backend_returned :
    ¬ ∀ (cfg : DomainConfig) (i : Nat) (url : String) (now : Nat) (s₀ s : HealthRun) (es : List HealthEvent)
        (ip : Option IpAddr), cfg.backends.Nodup → cfg.backends[i]? = some url →
      1 ≤ cfg.healthCheck.intervalSecs → cfg.healthCheck.intervalSecs ≤ 29 → start cfg now = some s₀ →
      exec (HealthRun.step cfg) s₀ es = some s → (∀ e ∈ es, e ≠ .checked i true ∧ e ≠ .served url) →
      5 ≤ es.count (.checked i false) → ∀ j, (s.lb.select ip (unixNow s.now)).1 ≠ some (url, j) := by
  intro h
  have hs : exec (HealthRun.step (oneBackend 29)) ⟨0, 0, .waiting, .new (oneBackend 29)⟩
      (fiveFailures (29 * 10 ^ 9) ++ [.tick, .pass (10 ^ 9)]) =
        some ⟨146 * 10 ^ 9, 174 * 10 ^ 9, .checking 0 (145 * 10 ^ 9),
          ⟨[⟨"http://a", 0, 5, 116, true⟩], .roundRobin, 0⟩⟩ := by decide
  obtain ⟨hfail, hfive⟩ := fiveFailures_fail (29 * 10 ^ 9) [.tick, .pass (10 ^ 9)] (by simp)
  exact h _ 0 "http://a" 0 _ _ _ none (by decide) rfl (by decide) (by decide) rfl hs hfail hfive 0 (by decide)

end HealthRun

end Curf
