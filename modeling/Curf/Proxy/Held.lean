import Curf.Proxy.InFlight

/-!
# Guards in flight

Between `select` and its answer a request holds the guard of its backend, and gives it
back on whichever way it ends. So the load balancer of a host counts for each backend the
requests in flight that have a guard of it (`Held`), modulo the width of its counters
(`active_in_flight`).
-/

namespace Curf

open Lib LoadBalancer

variable {lb lb' : LoadBalancer} {i : Nat} {url : String} {now : UInt64} {ip : Option IpAddr}

/-- The load balancer `lb` becomes `lb'` while the guard `g'` takes the place of `g`. -/
structure Swaps (lb lb' : LoadBalancer) (g g' : Option Nat) : Prop where
  urls : lb'.urls = lb.urls
  strategy : lb'.strategy = lb.strategy
  inRange : ∀ i, g' = some i → g = some i ∨ i < lb.backends.length
  active : (∀ i, g = some i → i < lb.backends.length) → ∀ i,
    (activeAt lb'.backends i + if g = some i then 1 else 0) % 2 ^ 64 =
      (activeAt lb.backends i + if g' = some i then 1 else 0) % 2 ^ 64

namespace Swaps

theorem refl (lb : LoadBalancer) (g : Option Nat) : Swaps lb lb g g := ⟨rfl, rfl, fun _ => .inl, fun _ _ => rfl⟩

theorem success (lb : LoadBalancer) (url : String) (g : Option Nat) : Swaps lb (lb.success url) g g :=
  ⟨success_urls url, success_strategy url, fun _ => .inl, fun _ i => by rw [success_activeAt]⟩

theorem failure (lb : LoadBalancer) (url : String) (now : UInt64) (g : Option Nat) :
    Swaps lb (lb.failure url now) g g :=
  ⟨failure_urls url, failure_strategy url, fun _ => .inl, fun _ i => by rw [failure_activeAt]⟩

theorem unserved (h : (lb.select ip now).1 = none) (g : Option Nat) : Swaps lb (lb.select ip now).2 g g := by
  refine ⟨select_urls .., select_strategy, fun _ => .inl, fun _ i => ?_⟩
  rw [select_fst, Option.map_eq_none_iff] at h
  rw [select_activeAt, h]
  simp

theorem selected (h : (lb.select ip now).1 = some (url, i)) : Swaps lb (lb.select ip now).2 none (some i) := by
  rw [select_fst] at h
  obtain ⟨i', hpick, heq⟩ := Option.map_eq_some_iff.mp h
  obtain ⟨-, rfl⟩ := Prod.mk.inj heq
  refine ⟨select_urls .., select_strategy, fun j hj => .inr ?_, fun _ j => ?_⟩
  · cases hj
    exact (pick_available hpick).lt
  · rw [select_activeAt, hpick]
    simp

theorem drop (lb : LoadBalancer) (i : Nat) : Swaps lb (lb.dropGuard i) (some i) none := by
  refine ⟨dropGuard_urls, rfl, nofun, fun hrange j => ?_⟩
  rw [show (if (none : Option Nat) = some j then 1 else 0) = 0 from rfl, Nat.add_zero,
    Nat.mod_eq_of_lt (activeAt_lt lb.backends j), ← dropGuard_activeAt_mod (hrange i rfl) j]
  simp only [Option.some.injEq]

end Swaps

/-- Without active requests `least_connections` takes the first available backend. -/
theorem leastConnections_of_idle (hs : lb.strategy = .leastConnections) (hidle : ∀ i, activeAt lb.backends i = 0)
    (ip : Option IpAddr) (now : UInt64) :
    lb.pick ip now = (List.range lb.backends.length).find? (AvailableAt lb.backends now) := by
  unfold pick visits
  rw [hs]
  dsimp only
  rw [minOn?_const hidle, List.head?_filter]

/-- What a request does to the load balancer of its host. -/
theorem Handler.Goes.swaps {C : Crates} {p : Handler} {env : Environment} {f : Flight} {lb? : Option LoadBalancer}
    {phase phase' : FlightPhase} (h : Goes C p env f phase lb? phase') (hlb' : lb? = some lb') :
    ∃ lb, p.lbManager (f.host C) = some lb ∧ Swaps lb lb' phase.guardOf phase'.guardOf := by
  cases h with
  | unrouted => cases hlb'
  | allDown hlb hsel => cases hlb'; exact ⟨_, hlb, .unserved hsel _⟩
  | selected hlb hsel => cases hlb'; exact ⟨_, hlb, .selected hsel⟩
  | replied =>
    split at hlb'
    · obtain ⟨lb, hlb, rfl⟩ := Option.map_eq_some_iff.mp hlb'
      exact ⟨lb, hlb, .success lb _ _⟩
    · exact ⟨lb', hlb', .refl lb' _⟩
  | ended hr =>
    obtain ⟨lb, hlb, rfl⟩ := Option.map_eq_some_iff.mp hlb'
    exact ⟨lb, hlb, .drop lb _⟩
  | unread | served | connected | unconnected | stays | gone => exact ⟨lb', hlb', .refl lb' _⟩

namespace Traffic

variable {C : Crates} {s s' : Traffic} {e : TrafficEvent} {es past : List TrafficEvent} {d : Domains} {p : Handler}
  {host : Text}

/-- The request has the guard of the backend in position `i` of `host`. -/
def holds (C : Crates) (host : Text) (i : Nat) (f : Flight) : Bool :=
  decide (f.host C = host) && decide (f.phase.guardOf = some i)

/-- How many of the requests have it. -/
def holding (C : Crates) (s : Traffic) (es : List TrafficEvent) (host : Text) (i : Nat) : Nat :=
  (numbers es).countP fun k => (s.flights k).any (holds C host i)

theorem holding_put (h : Known past s) {k : Nat} {f : Flight} (hf : s.flights k = some f) (he : arrival e = none)
    (f' : Flight) (host : Text) (i : Nat) :
    holding C ⟨p, s.flights.insert k f'⟩ (past ++ [e]) host i + (if holds C host i f then 1 else 0) =
      s.holding C past host i + (if holds C host i f' then 1 else 0) := by
  have hk : k ∈ numbers past := (h.mem k).mp (by rw [hf]; rfl)
  have hcount := countP_update (p := fun k => (s.flights k).any (holds C host i))
    (q := fun j => (s.flights.insert k f' j).any (holds C host i)) h.nodup hk
    fun j hj => by rw [DashMap.insert_other _ _ hj]
  unfold holding
  rw [numbers_quiet he]
  simpa [hf] using hcount

/-- A request comes without a guard. -/
theorem holding_arrive (h : Known past s) {k : Nat} {peer : IpAddr} {req : Request} {isTls : Bool}
    {env : Environment} {phase : FlightPhase} (hfree : s.flights k = none) (hguard : phase.guardOf = none)
    (host : Text) (i : Nat) :
    holding C ⟨p, s.flights.insert k ⟨peer, req, isTls, phase⟩⟩ (past ++ [.arrive k peer req isTls env]) host i =
      s.holding C past host i := by
  unfold holding
  rw [numbers_arrive, List.countP_append, List.countP_singleton, if_neg (by simp [holds, hguard]), Nat.add_zero]
  refine List.countP_congr fun j hj => ?_
  have hne : j ≠ k := fun hjk => h.fresh hfree (hjk ▸ hj)
  dsimp only
  rw [DashMap.insert_other _ _ hne]

/-- A load balancer is that of the configuration `cfg` and counts the guards of `host`. -/
structure Keeps (C : Crates) (past : List TrafficEvent) (s : Traffic) (host : Text) (cfg : DomainConfig)
    (lb : LoadBalancer) : Prop where
  urls : lb.urls = cfg.backends
  strategy : lb.strategy = cfg.loadBalance
  inRange : ∀ k f, s.flights k = some f → f.host C = host → ∀ i, f.phase.guardOf = some i → i < cfg.backends.length
  active : ∀ i, activeAt lb.backends i = s.holding C past host i % 2 ^ 64

/-- The load balancer of each host is that of its domain and counts the guards of the
requests in flight. -/
structure Held (C : Crates) (d : Domains) (past : List TrafficEvent) (s : Traffic) : Prop where
  known : Known past s
  balancers : ∀ host lb, s.handler.lbManager host = some lb →
    ∃ e, d.find host = some e ∧ Keeps C past s host e.2 lb

theorem Held.urls (h : Held C d past s) (hlb : s.handler.lbManager host = some lb) :
    ∃ e, d.find host = some e ∧ lb.urls = e.2.backends := by
  obtain ⟨e, he, hkeeps⟩ := h.balancers host lb hlb
  exact ⟨e, he, hkeeps.urls⟩

theorem Keeps.length {cfg : DomainConfig} (h : Keeps C past s host cfg lb) :
    lb.backends.length = cfg.backends.length :=
  (List.length_map _).symm.trans (congrArg List.length h.urls)

/-- No request has a guard of a backend that there is not. -/
theorem Keeps.holding_eq_zero {cfg : DomainConfig} (h : Keeps C past s host cfg lb) (hi : cfg.backends.length ≤ i) :
    s.holding C past host i = 0 := by
  refine List.countP_eq_zero.mpr fun k _ => ?_
  cases hf : s.flights k with
  | none => exact nofun
  | some f =>
    by_cases hhost : f.host C = host
    · have hguard : f.phase.guardOf ≠ some i := fun hg => Nat.not_lt.mpr hi (h.inRange k f hf hhost i hg)
      simp [holds, hguard]
    · simp [holds, hhost]

/-- A request goes on, or is dropped. -/
theorem Held.put (h : Held C d past s) {k : Nat} {f : Flight} (hf : s.flights k = some f) (he : arrival e = none)
    {lb? : Option LoadBalancer} {phase : FlightPhase}
    (hlb : ∀ lb', lb? = some lb' →
      ∃ lb, s.handler.lbManager (f.host C) = some lb ∧ Swaps lb lb' f.phase.guardOf phase.guardOf) :
    Held C d (past ++ [e]) ⟨balance s.handler (f.host C) lb?, s.flights.insert k { f with phase }⟩ := by
  refine ⟨h.known.put hf he _, fun host lb' hhost => ?_⟩
  have hcount (i : Nat) := holding_put (C := C) (p := balance s.handler (f.host C) lb?) h.known hf he
    { f with phase } host i
  have hsame : Flight.host C { f with phase } = f.host C := rfl
  dsimp only at hhost
  rw [balance_lbManager] at hhost
  by_cases hown : f.host C = host
  · subst hown
    rw [DashMap.set_same] at hhost
    obtain ⟨lb, hlb, hswaps⟩ := hlb lb' hhost
    obtain ⟨en, hen, hkeeps⟩ := h.balancers _ lb hlb
    have hrange := hkeeps.inRange k f hf rfl
    refine ⟨en, hen, hswaps.urls.trans hkeeps.urls, hswaps.strategy.trans hkeeps.strategy, ?_, fun i => ?_⟩
    · intro j g hg hghost i hi
      dsimp only at hg
      by_cases hjk : j = k
      · subst hjk
        rw [DashMap.insert_same] at hg
        cases hg
        rcases hswaps.inRange i hi with hi | hi
        · exact hrange i hi
        · rwa [hkeeps.length] at hi
      · rw [DashMap.insert_other _ _ hjk] at hg
        exact hkeeps.inRange j g hg hghost i hi
    · have hi := hcount i
      have hactive := hswaps.active (fun i hi => by rw [hkeeps.length]; exact hrange i hi) i
      have hlt := activeAt_lt lb'.backends i
      rw [hkeeps.active i] at hactive
      simp only [holds, hsame, decide_true, Bool.true_and, decide_eq_true_eq] at hi
      omega
  · rw [DashMap.set_other _ _ fun h => hown h.symm] at hhost
    obtain ⟨en, hen, hkeeps⟩ := h.balancers host lb' hhost
    refine ⟨en, hen, hkeeps.urls, hkeeps.strategy, ?_, fun i => ?_⟩
    · intro j g hg hghost i hi
      dsimp only at hg
      by_cases hjk : j = k
      · subst hjk
        rw [DashMap.insert_same] at hg
        cases hg
        exact absurd hghost hown
      · rw [DashMap.insert_other _ _ hjk] at hg
        exact hkeeps.inRange j g hg hghost i hi
    · have hi := hcount i
      simp only [holds, hsame, hown, decide_false, Bool.false_and, Bool.false_eq_true, if_false, Nat.add_zero] at hi
      rw [hkeeps.active i, hi]

/-- The load balancer of `host` hears something. -/
theorem Held.hear (h : Held C d past s) (he : arrival e = none) {host : Text} {g : LoadBalancer → LoadBalancer}
    (hg : ∀ lb, Swaps lb (g lb) none none) :
    Held C d (past ++ [e]) { s with handler := balance s.handler host ((s.handler.lbManager host).map g) } := by
  have hnumbers : numbers (past ++ [e]) = numbers past := numbers_quiet he
  have hsame (x : Text) (i : Nat) : holding C ⟨balance s.handler host ((s.handler.lbManager host).map g), s.flights⟩
      (past ++ [e]) x i = s.holding C past x i := by
    unfold holding
    rw [hnumbers]
  refine ⟨⟨hnumbers ▸ h.known.nodup, fun k => hnumbers ▸ h.known.mem k⟩, fun x lb' hx => ?_⟩
  dsimp only at hx
  rw [balance_lbManager] at hx
  by_cases hhost : x = host
  · subst hhost
    rw [DashMap.set_same] at hx
    obtain ⟨lb, hlb, rfl⟩ := Option.map_eq_some_iff.mp hx
    obtain ⟨en, hen, hkeeps⟩ := h.balancers _ lb hlb
    have hswaps := hg lb
    refine ⟨en, hen, hswaps.urls.trans hkeeps.urls, hswaps.strategy.trans hkeeps.strategy, hkeeps.inRange, fun i => ?_⟩
    have hactive := hswaps.active nofun i
    have hlt := activeAt_lt (g lb).backends i
    rw [hsame, hkeeps.active i] at *
    simp only [if_false, Nat.add_zero, reduceCtorEq] at hactive
    omega
  · rw [DashMap.set_other _ _ hhost] at hx
    obtain ⟨en, hen, hkeeps⟩ := h.balancers x lb' hx
    exact ⟨en, hen, hkeeps.urls, hkeeps.strategy, hkeeps.inRange, fun i => (hkeeps.active i).trans (by rw [hsame])⟩

theorem Held.step (h : Held C d past s) (hs : s.step C e = some s') : Held C d (past ++ [e]) s' := by
  have hknown := h.known.step hs
  cases moves_iff.mp hs with
  | @arrived k peer req isTls env phase hfree henter =>
    refine ⟨hknown, fun host lb hlb => ?_⟩
    obtain ⟨en, hen, hkeeps⟩ := h.balancers host lb hlb
    have hguard : phase.guardOf = none := by
      obtain ⟨r, rfl⟩ | ⟨-, -, -, rfl⟩ := Handler.enter_cases henter
      · rfl
      · split <;> rfl
    refine ⟨en, hen, hkeeps.urls, hkeeps.strategy, ?_, fun i => ?_⟩
    · intro j g hg hghost i hi
      dsimp only at hg
      by_cases hjk : j = k
      · subst hjk
        rw [DashMap.insert_same] at hg
        cases hg
        rw [hguard] at hi
        cases hi
      · rw [DashMap.insert_other _ _ hjk] at hg
        exact hkeeps.inRange j g hg hghost i hi
    · rw [hkeeps.active i, holding_arrive h.known hfree hguard host i]
  | @gone k env f lb? phase hf hgo => exact h.put hf rfl fun lb' hlb' => (Handler.goes_of_go hgo).swaps hlb'
  | @cancelled k f hf hopen =>
    refine h.put hf rfl fun lb' hlb' => ?_
    cases hguard : f.phase.guardOf with
    | none => rw [hguard] at hlb'; exact ⟨lb', hlb', .refl lb' none⟩
    | some i =>
      rw [hguard] at hlb'
      obtain ⟨lb, hlb, rfl⟩ := Option.map_eq_some_iff.mp hlb'
      exact ⟨lb, hlb, .drop lb i⟩
  | @checked host url ok now =>
    refine h.hear rfl fun lb => ?_
    cases ok with
    | true => exact .success lb url none
    | false => exact .failure lb url now none

theorem held_of_run (hp : p.lbManager = ProxyHandler.registered d) (hrun : exec (step C) ⟨p, .empty⟩ es = some s) :
    Held C d es s := by
  refine exec_inv_past (fun _ _ _ _ h hs => Held.step h hs) ⟨.start p, fun host lb hlb => ?_⟩ hrun
  replace hlb : p.lbManager host = some lb := hlb
  rw [hp, ProxyHandler.registered, Domains.collect_apply] at hlb
  obtain ⟨en, hen, hnew⟩ := Option.bind_eq_some_iff.mp hlb
  cases hnew
  refine ⟨en, hen, urls_new en.2, rfl, fun _ _ hf => (by cases hf), fun i => ?_⟩
  exact activeAt_new en.2 i

/-- **Counts of active requests.** However requests, cancellations and checks interleave,
a backend's count of active requests is the number of requests in flight that were given
it and have not been answered, modulo the 64 bits of the counter: no way to the end of a
request keeps the guard. With `least_connections` a `select` that no other overlaps takes
an available backend that the fewest have. -/
theorem active_in_flight (hp : p.lbManager = ProxyHandler.registered d)
    (hrun : exec (step C) ⟨p, .empty⟩ es = some s) (hlb : s.handler.lbManager host = some lb) :
    ∃ e, d.find host = some e ∧ lb.urls = e.2.backends ∧ lb.strategy = e.2.loadBalance ∧
      (∀ i, activeAt lb.backends i = s.holding C es host i % 2 ^ 64) ∧
      (∀ i, e.2.backends.length ≤ i → s.holding C es host i = 0) ∧
      (lb.strategy = .leastConnections → (∀ i, s.holding C es host i < 2 ^ 64) →
        ∀ ip now url i, (lb.select ip now).1 = some (url, i) → AvailableAt lb.backends now i ∧
          ∀ j, AvailableAt lb.backends now j → s.holding C es host i ≤ s.holding C es host j) := by
  obtain ⟨e, he, hkeeps⟩ := (held_of_run hp hrun).balancers host lb hlb
  refine ⟨e, he, hkeeps.urls, hkeeps.strategy, hkeeps.active, fun i hi => hkeeps.holding_eq_zero hi, ?_⟩
  intro hlc hfew ip now url i hsel
  have hexact (j : Nat) : activeAt lb.backends j = s.holding C es host j :=
    (hkeeps.active j).trans (Nat.mod_eq_of_lt (hfew j))
  rw [select_fst] at hsel
  obtain ⟨i', hpick, heq⟩ := Option.map_eq_some_iff.mp hsel
  obtain ⟨-, rfl⟩ := Prod.mk.inj heq
  refine ⟨pick_available hpick, fun j hj => ?_⟩
  rw [← hexact i', ← hexact j]
  exact pick_least hlc hpick hj

/-- Two requests on their way, for a domain with two backends. -/
theorem active_in_flight_two :
    ∃ s lb, exec (step .sample)
        ⟨.single "h" { backends := ["http://a", "http://b"], loadBalance := .leastConnections }, .empty⟩
        [.get 0 1 "h", .get 1 2 "h", .on 0, .on 1, .on 1, .on 0] = some s ∧
      s.handler.lbManager "h".toList = some lb ∧ activeAt lb.backends 0 = 1 ∧ activeAt lb.backends 1 = 1 := by
  obtain ⟨s, hs⟩ : ∃ s, exec (step .sample)
    ⟨.single "h" { backends := ["http://a", "http://b"], loadBalance := .leastConnections }, .empty⟩
    [.get 0 1 "h", .get 1 2 "h", .on 0, .on 1, .on 1, .on 0] = some s := ⟨_, rfl⟩
  obtain ⟨lb, hlb⟩ : ∃ lb, s.handler.lbManager "h".toList = some lb := by cases hs; exact ⟨_, rfl⟩
  obtain ⟨e, -, -, -, hcounts, -⟩ := active_in_flight rfl hs hlb
  refine ⟨s, lb, hs, hlb, (hcounts 0).trans ?_, (hcounts 1).trans ?_⟩ <;> cases hs <;> rfl

/-- **Nothing to compare.** While no request for a host is on its way to a backend, no
backend of it is counted active. Requests that come one at a time find it so, and with
`least_connections` all of them go to the first available backend. -/
theorem idle_all_to_first (hp : p.lbManager = ProxyHandler.registered d)
    (hrun : exec (step C) ⟨p, .empty⟩ es = some s) (hlb : s.handler.lbManager host = some lb)
    (hidle : ∀ k f, s.flights k = some f → f.host C = host → f.phase.guardOf = none) :
    (∀ i, activeAt lb.backends i = 0) ∧
      (lb.strategy = .leastConnections → ∀ ip now, (lb.select ip now).1 =
        ((List.range lb.backends.length).find? (AvailableAt lb.backends now)).map fun i => (lb.urlAt i, i)) := by
  obtain ⟨e, -, hkeeps⟩ := (held_of_run hp hrun).balancers host lb hlb
  have hnone (i : Nat) : activeAt lb.backends i = 0 := by
    suffices hzero : s.holding C es host i = 0 from (hkeeps.active i).trans (by rw [hzero]; rfl)
    refine List.countP_eq_zero.mpr fun k _ => ?_
    cases hf : s.flights k with
    | none => exact nofun
    | some f =>
      by_cases hhost : f.host C = host
      · simp [holds, hidle k f hf hhost]
      · simp [holds, hhost]
  refine ⟨hnone, fun hlc ip now => ?_⟩
  rw [select_fst, leastConnections_of_idle hlc hnone]

/-- After two requests, for a domain with two backends; one of them was dropped. -/
theorem idle_all_to_first_dropped :
    ∃ s lb, exec (step .sample)
        ⟨.single "h" { backends := ["http://a", "http://b"], loadBalance := .leastConnections }, .empty⟩
        [.get 0 1 "h", .get 1 2 "h", .on 0, .on 0, .on 1, .cancel 0, .cancel 1] = some s ∧
      s.handler.lbManager "h".toList = some lb ∧ (lb.select none 0).1 = some ("http://a", 0) := by
  obtain ⟨s, hs⟩ : ∃ s, exec (step .sample)
    ⟨.single "h" { backends := ["http://a", "http://b"], loadBalance := .leastConnections }, .empty⟩
    [.get 0 1 "h", .get 1 2 "h", .on 0, .on 0, .on 1, .cancel 0, .cancel 1] = some s := ⟨_, rfl⟩
  obtain ⟨lb, hlb⟩ : ∃ lb, s.handler.lbManager "h".toList = some lb := by cases hs; exact ⟨_, rfl⟩
  have hidle : ∀ k f, s.flights k = some f → f.host .sample = "h".toList → f.phase.guardOf = none := by
    intro k f hf _
    cases hs
    obtain _ | _ | k := k
    · cases hf; rfl
    · cases hf; rfl
    · cases hf
  obtain ⟨-, hfirst⟩ := idle_all_to_first rfl hs hlb hidle
  have hlc : lb.strategy = .leastConnections := by cases hs; cases hlb; rfl
  refine ⟨s, lb, hs, hlb, (hfirst hlc none 0).trans ?_⟩
  cases hs
  cases hlb
  rfl

end Traffic

end Curf
