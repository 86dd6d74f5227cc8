import Curf.Lib.Exec
import Curf.Balancer.Pick

/-!
# The health checker of a domain

The task that `start_health_checks` spawns for a domain checks the backends one after
another at each tick of an interval timer and reports the outcomes to the load balancer,
which serves requests at the same time. Time is in nanoseconds since the Unix epoch; a
tick comes as soon as it is due, a check lasts no longer than its timeout, and ticks that
are missed are skipped.

`Timed.checked_gap` bounds the time between two checks of a backend.
-/

namespace Curf

open Lib

/-- `unix_now`: whole seconds. -/
def unixNow (now : Nat) : UInt64 := .ofNat (now / 10 ^ 9)

theorem unixNow_toNat {now : Nat} (h : now < 2 ^ 64 * 10 ^ 9) : (unixNow now).toNat = now / 10 ^ 9 := by
  rw [unixNow, UInt64.toNat_ofNat']
  exact Nat.mod_eq_of_lt (Nat.div_lt_of_lt_mul (by omega))

namespace HealthCheckConfig

variable (hc : HealthCheckConfig)

def period : Nat := hc.intervalSecs.toNat * 10 ^ 9

def timeout : Nat := hc.timeoutSecs.toNat * 10 ^ 9

end HealthCheckConfig

inductive CheckPhase where
  | waiting
  /-- The backend in position `j` is being checked. -/
  | checking (j : Nat) (since : Nat)
  deriving DecidableEq, Repr

/-- The checker task and the load balancer it reports to. -/
structure HealthRun where
  now : Nat
  /-- When the next tick is due. -/
  deadline : Nat
  phase : CheckPhase
  lb : LoadBalancer
  deriving DecidableEq, Repr

inductive HealthEvent where
  | pass (d : Nat)
  | tick
  | checked (j : Nat) (ok : Bool)
  | select (ip : Option IpAddr)
  | dropGuard (j : Nat)
  /-- A proxied request has got its response. -/
  | served (url : String)
  deriving DecidableEq, Repr

namespace HealthRun

/-- The task is spawned; a period of zero is refused by the timer. -/
def start (cfg : DomainConfig) (now : Nat) : Option HealthRun :=
  if cfg.healthCheck.enabled = true ∧ cfg.backends ≠ [] ∧ 0 < cfg.healthCheck.period ∧ now < 2 ^ 64 * 10 ^ 9 then
    some ⟨now, now, .waiting, .new cfg⟩
  else none

/-- The next tick after a tick that was due at `deadline`. -/
def nextDeadline (deadline now period : Nat) : Nat := now + period - (now - deadline) % period

variable (cfg : DomainConfig)

/-- The latest time at which the phase ends. -/
def phaseEnd (s : HealthRun) : Nat :=
  match s.phase with
  | .waiting => s.deadline
  | .checking _ since => since + cfg.healthCheck.timeout

def step (s : HealthRun) : HealthEvent → Option HealthRun
  | .pass d =>
    if s.now + d < 2 ^ 64 * 10 ^ 9 ∧ s.now + d ≤ s.phaseEnd cfg then some { s with now := s.now + d } else none
  | .tick =>
    if s.phase = .waiting ∧ s.deadline ≤ s.now then
      some { s with
        phase := .checking 0 s.now
        deadline := nextDeadline s.deadline s.now cfg.healthCheck.period }
    else none
  | .checked j ok =>
    match s.phase, cfg.backends[j]? with
    | .checking k _, some url =>
      if k = j then
        some { s with
          phase := if j + 1 < cfg.backends.length then .checking (j + 1) s.now else .waiting
          lb := if ok then s.lb.success url else s.lb.failure url (unixNow s.now) }
      else none
    | _, _ => none
  | .select ip => some { s with lb := (s.lb.select ip (unixNow s.now)).2 }
  | .dropGuard j => some { s with lb := s.lb.dropGuard j }
  | .served url => some { s with lb := s.lb.success url }

variable {cfg} {s s' : HealthRun}

/-- What an event can do. -/
inductive Moves (cfg : DomainConfig) (s : HealthRun) : HealthEvent → HealthRun → Prop
  | passed {d : Nat} (hclock : s.now + d < 2 ^ 64 * 10 ^ 9) (hend : s.now + d ≤ s.phaseEnd cfg) :
      Moves cfg s (.pass d) { s with now := s.now + d }
  | ticked (hwait : s.phase = .waiting) (hdue : s.deadline ≤ s.now) :
      Moves cfg s .tick { s with
        phase := .checking 0 s.now
        deadline := nextDeadline s.deadline s.now cfg.healthCheck.period }
  | checked {j since : Nat} {ok : Bool} {url : String} (hphase : s.phase = .checking j since)
      (hurl : cfg.backends[j]? = some url) :
      Moves cfg s (.checked j ok) { s with
        phase := if j + 1 < cfg.backends.length then .checking (j + 1) s.now else .waiting
        lb := if ok then s.lb.success url else s.lb.failure url (unixNow s.now) }
  | selected {ip : Option IpAddr} :
      Moves cfg s (.select ip) { s with lb := (s.lb.select ip (unixNow s.now)).2 }
  | dropped {j : Nat} : Moves cfg s (.dropGuard j) { s with lb := s.lb.dropGuard j }
  | served {url : String} : Moves cfg s (.served url) { s with lb := s.lb.success url }

theorem moves_of_step {e : HealthEvent} (hs : s.step cfg e = some s') : Moves cfg s e s' := by
  cases e with
  | pass d =>
    simp only [step] at hs
    split at hs
    · rename_i h; cases hs; exact .passed h.1 h.2
    · cases hs
  | tick =>
    simp only [step] at hs
    split at hs
    · rename_i h; cases hs; exact .ticked h.1 h.2
    · cases hs
  | checked j ok =>
    simp only [step] at hs
    split at hs
    · rename_i k since url hphase hurl
      split at hs
      · rename_i hk
        subst hk
        cases hs
        exact .checked hphase hurl
      · cases hs
    · cases hs
  | select ip => cases hs; exact .selected
  | dropGuard j => cases hs; exact .dropped
  | served url => cases hs; exact .served

/-! ## How long a pass takes -/

/-- The clock fits its 64 bits, the next tick is at most a period away, and a check has
lasted no longer than its timeout. -/
structure Timed (cfg : DomainConfig) (s : HealthRun) : Prop where
  nonempty : 0 < cfg.backends.length
  clock : s.now < 2 ^ 64 * 10 ^ 9
  deadline : s.deadline ≤ s.now + cfg.healthCheck.period
  check : ∀ j since, s.phase = .checking j since →
    since ≤ s.now ∧ s.now ≤ since + cfg.healthCheck.timeout ∧ j < cfg.backends.length

theorem timed_start {now : Nat} (hs : start cfg now = some s) : Timed cfg s := by
  unfold start at hs
  split at hs
  · rename_i h
    cases hs
    exact ⟨List.length_pos_of_ne_nil h.2.1, h.2.2.2, Nat.le_add_right .., nofun⟩
  · cases hs

theorem nextDeadline_le (deadline now period : Nat) : nextDeadline deadline now period ≤ now + period :=
  Nat.sub_le ..

theorem Timed.step (h : Timed cfg s) {e : HealthEvent} (hs : s.step cfg e = some s') : Timed cfg s' := by
  cases moves_of_step hs with
  | @passed d hclock hend =>
    refine ⟨h.nonempty, hclock, ?_, fun j since hphase => ?_⟩
    · have := h.deadline
      show s.deadline ≤ s.now + d + cfg.healthCheck.period
      omega
    · obtain ⟨h1, -, h3⟩ := h.check j since hphase
      rw [phaseEnd, show s.phase = .checking j since from hphase] at hend
      exact ⟨Nat.le_add_right_of_le h1, hend, h3⟩
  | ticked hwait hdue =>
    refine ⟨h.nonempty, h.clock, nextDeadline_le .., fun j since hphase => ?_⟩
    cases hphase
    exact ⟨Nat.le_refl _, Nat.le_add_right .., h.nonempty⟩
  | @checked j since ok url hphase hurl =>
    refine ⟨h.nonempty, h.clock, h.deadline, fun k t hk => ?_⟩
    dsimp only at hk
    split at hk
    · rename_i hlt
      cases hk
      exact ⟨Nat.le_refl _, Nat.le_add_right .., hlt⟩
    · cases hk
  | selected => exact ⟨h.nonempty, h.clock, h.deadline, h.check⟩
  | dropped => exact ⟨h.nonempty, h.clock, h.deadline, h.check⟩
  | served => exact ⟨h.nonempty, h.clock, h.deadline, h.check⟩

variable (cfg) (i f : Nat)

/-- The longest time that the checks after the one of position `i` take. -/
def restOfPass : Nat := (cfg.backends.length - (i + 1)) * cfg.healthCheck.timeout

/-- The longest time from a check of the backend in position `i` to the next tick. -/
def maxWait : Nat := max cfg.healthCheck.period (restOfPass cfg i)

/-- The longest time between two checks of the backend in position `i`. -/
def maxGap : Nat := maxWait cfg i + (i + 1) * cfg.healthCheck.timeout

/-- How much time can have passed since the last check of the backend in position `i`,
which ended at the time `f`. -/
def Since (s : HealthRun) : Prop :=
  f ≤ s.now ∧
    match s.phase with
    | .waiting => s.deadline ≤ f + cfg.healthCheck.period ∧ s.now ≤ f + maxWait cfg i
    | .checking j since =>
      if i < j then
        s.deadline ≤ f + cfg.healthCheck.period ∧
          since + (cfg.backends.length - j) * cfg.healthCheck.timeout ≤ f + restOfPass cfg i
      else since ≤ f + maxWait cfg i + j * cfg.healthCheck.timeout

variable {cfg i f}

/-- What is left of a pass, with the check of position `j` taken out. -/
theorem rest_succ {n j : Nat} (h : j < n) (t : Nat) : (n - j) * t = (n - (j + 1)) * t + t := by
  rw [show n - j = n - (j + 1) + 1 by omega, Nat.succ_mul]

/-- **The time between two checks** of a backend is bounded. -/
theorem Timed.checked_gap (h : Timed cfg s) (hf : Since cfg i f s) : s.now ≤ f + maxGap cfg i := by
  obtain ⟨-, hf⟩ := hf
  have hmax : restOfPass cfg i ≤ maxWait cfg i := Nat.le_max_right ..
  unfold maxGap
  cases hphase : s.phase with
  | waiting =>
    rw [hphase] at hf
    have := hf.2
    omega
  | checking j since =>
    rw [hphase] at hf
    obtain ⟨-, hlimit, hj⟩ := h.check j since hphase
    have hrest := rest_succ hj cfg.healthCheck.timeout
    dsimp only at hf
    split at hf
    · omega
    · rename_i hij
      have hmul : (j + 1) * cfg.healthCheck.timeout ≤ (i + 1) * cfg.healthCheck.timeout :=
        Nat.mul_le_mul_right _ (by omega)
      rw [Nat.succ_mul] at hmul
      omega

/-- The check of the backend itself has just ended. -/
theorem since_checked (h : Timed cfg s) {lb : LoadBalancer} :
    Since cfg i s.now { s with
      phase := if i + 1 < cfg.backends.length then .checking (i + 1) s.now else .waiting
      lb } := by
  have hdeadline := h.deadline
  refine ⟨Nat.le_refl _, ?_⟩
  by_cases hi : i + 1 < cfg.backends.length
  · rw [if_pos hi]
    dsimp only
    rw [if_pos (Nat.lt_succ_self i)]
    exact ⟨hdeadline, Nat.le_refl _⟩
  · rw [if_neg hi]
    exact ⟨hdeadline, Nat.le_add_right ..⟩

/-- The check of another backend ends. -/
theorem Since.checked_other (hf : Since cfg i f s) (h : Timed cfg s) {j since : Nat} {lb : LoadBalancer}
    (hphase : s.phase = .checking j since) (hij : j ≠ i) (hi : i < cfg.backends.length) :
    Since cfg i f { s with
      phase := if j + 1 < cfg.backends.length then .checking (j + 1) s.now else .waiting
      lb } := by
  obtain ⟨hle, hf⟩ := hf
  obtain ⟨-, hlimit, hj⟩ := h.check j since hphase
  have hmax : restOfPass cfg i ≤ maxWait cfg i := Nat.le_max_right ..
  have hrest := rest_succ hj cfg.healthCheck.timeout
  refine ⟨hle, ?_⟩
  rw [hphase] at hf
  dsimp only at hf
  by_cases hpast : i < j
  · rw [if_pos hpast] at hf
    by_cases hlast : j + 1 < cfg.backends.length
    · rw [if_pos hlast]
      dsimp only
      rw [if_pos (by omega)]
      exact ⟨hf.1, by omega⟩
    · rw [if_neg hlast]
      exact ⟨hf.1, by dsimp only; omega⟩
  · rw [if_neg hpast] at hf
    rw [if_pos (by omega)]
    dsimp only
    rw [if_neg (by omega), Nat.succ_mul]
    omega

/-- While the backend is not checked, the time of its last check stays. -/
theorem Since.step (hf : Since cfg i f s) (h : Timed cfg s) (hi : i < cfg.backends.length) {e : HealthEvent}
    (he : ∀ ok, e ≠ .checked i ok) (hs : s.step cfg e = some s') : Since cfg i f s' := by
  cases moves_of_step hs with
  | @passed d hclock hend =>
    obtain ⟨hle, hf⟩ := hf
    refine ⟨Nat.le_add_right_of_le hle, ?_⟩
    show match s.phase with
      | .waiting => s.deadline ≤ f + cfg.healthCheck.period ∧ s.now + d ≤ f + maxWait cfg i
      | .checking j since => _
    unfold phaseEnd at hend
    have hmax : cfg.healthCheck.period ≤ maxWait cfg i := Nat.le_max_left ..
    cases hphase : s.phase with
    | waiting =>
      rw [hphase] at hf hend
      exact ⟨hf.1, by dsimp only at hend; omega⟩
    | checking j since =>
      rw [hphase] at hf
      exact hf
  | ticked hwait hdue =>
    obtain ⟨hle, hf⟩ := hf
    rw [hwait] at hf
    refine ⟨hle, ?_⟩
    dsimp only
    rw [if_neg (Nat.not_lt_zero i)]
    have := hf.2
    omega
  | @checked j since ok url hphase hurl =>
    have hj : j ≠ i := fun hj => he ok (hj ▸ rfl)
    exact hf.checked_other h hphase hj hi
  | selected => exact hf
  | dropped => exact hf
  | served => exact hf

end HealthRun

end Curf
