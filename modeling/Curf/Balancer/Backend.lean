import Mathlib.Algebra.Group.Nat.Defs

/-!
# Backends and their circuit breakers

A `Backend` is an upstream server with its count of active requests and its
circuit breaker. Its fields are 64-bit atomics: `active` and `failures` wrap, and
so does the subtraction of two clock readings in `is_healthy`. Clock readings
are whole seconds since the Unix epoch.

`active` counts live guards. Each guard holds a reference-counted pointer to its
backend, and the runtime aborts the program when there are too many of these
(`maxGuards`), long before the count would wrap.
-/

namespace Curf

/-- Failures before the circuit opens. -/
def cbThreshold : UInt64 := 5

/-- Seconds before an open circuit lets traffic through again. -/
def cbResetSecs : UInt64 := 30

/-- Guards of one backend that can be alive at once: each has a reference to it and the
load balancer one more, and none is cloned when there are more than `isize::MAX`. -/
def maxGuards : Nat := 2 ^ 63 - 1

structure Backend where
  url : String
  /-- Requests being served. -/
  active : UInt64
  /-- Consecutive failures. -/
  failures : UInt64
  /-- Time of the last failure. -/
  lastFailure : UInt64
  circuitOpen : Bool
  deriving DecidableEq, Repr

namespace Backend

def new (url : String) : Backend := ⟨url, 0, 0, 0, false⟩

def acquire (b : Backend) : Backend := { b with active := b.active + 1 }

def release (b : Backend) : Backend := { b with active := b.active - 1 }

def recordSuccess (b : Backend) : Backend := { b with failures := 0, circuitOpen := false }

def recordFailure (b : Backend) (now : UInt64) : Backend :=
  { b with
    failures := b.failures + 1
    lastFailure := now
    circuitOpen := if cbThreshold ≤ b.failures + 1 then true else b.circuitOpen }

/-- With fewer than five failures counted, one more reaches the threshold when it is the
fifth. -/
theorem cbThreshold_le_iff {k : Nat} (h : k < 5) : cbThreshold ≤ UInt64.ofNat k + 1 ↔ 5 ≤ k + 1 := by
  rw [UInt64.le_iff_toNat_le, UInt64.toNat_add, UInt64.toNat_ofNat', cbThreshold]
  simp only [UInt64.reduceToNat]
  omega

/-- The time of a circuit is up after 30 seconds, if the clock is not behind. -/
theorem cbResetSecs_le_iff {now last : UInt64} (h : last ≤ now) :
    cbResetSecs ≤ now - last ↔ last.toNat + 30 ≤ now.toNat := by
  rw [UInt64.le_iff_toNat_le, UInt64.toNat_sub_of_le _ _ h, cbResetSecs]
  rw [UInt64.le_iff_toNat_le] at h
  simp only [UInt64.reduceToNat]
  omega

/-- Whether the backend should receive traffic at `now`. An open circuit whose
time is up is closed by the query. -/
def isHealthy (b : Backend) (now : UInt64) : Bool × Backend :=
  if b.circuitOpen = false then (true, b)
  else if cbResetSecs ≤ now - b.lastFailure then
    (true, { b with circuitOpen := false, failures := 0 })
  else (false, b)

/-- What `is_healthy` answers at `now`. -/
def Available (b : Backend) (now : UInt64) : Prop :=
  b.circuitOpen = false ∨ cbResetSecs ≤ now - b.lastFailure

instance (b : Backend) (now : UInt64) : Decidable (b.Available now) :=
  inferInstanceAs (Decidable (_ ∨ _))

variable {b : Backend} {now : UInt64}

theorem isHealthy_fst : (b.isHealthy now).1 = decide (b.Available now) := by
  unfold isHealthy Available
  split
  · rename_i h; simp [h]
  · rename_i h; split <;> rename_i h' <;> simp [h, h']

/-- The query on an unavailable backend changes nothing. -/
theorem isHealthy_snd_of_not_available (h : ¬ b.Available now) : (b.isHealthy now).2 = b := by
  simp only [Available, not_or] at h
  simp [isHealthy, h.1, h.2]

/-- The query on a closed circuit changes nothing. -/
theorem isHealthy_snd_of_closed (h : b.circuitOpen = false) : (b.isHealthy now).2 = b := by
  simp [isHealthy, h]

/-- The query leaves the backend available. -/
theorem isHealthy_snd_closed (h : b.Available now) : (b.isHealthy now).2.circuitOpen = false := by
  unfold isHealthy
  split
  · assumption
  · rename_i ho
    rw [if_pos (h.resolve_left ho)]

@[simp] theorem isHealthy_url : (b.isHealthy now).2.url = b.url := by
  unfold isHealthy; split
  · rfl
  · split <;> rfl

@[simp] theorem isHealthy_active : (b.isHealthy now).2.active = b.active := by
  unfold isHealthy; split
  · rfl
  · split <;> rfl

@[simp] theorem isHealthy_lastFailure : (b.isHealthy now).2.lastFailure = b.lastFailure := by
  unfold isHealthy; split
  · rfl
  · split <;> rfl

/-! ## Recording failures -/

theorem recordFailure_failures {k : Nat} (hf : b.failures = UInt64.ofNat k) :
    (b.recordFailure now).failures = UInt64.ofNat (k + 1) := by
  show b.failures + 1 = _
  rw [hf]
  exact (UInt64.ofNat_add _ _).symm

/-- The fifth failure opens the circuit. -/
theorem recordFailure_of_closed {k : Nat} (hc : b.circuitOpen = false) (hf : b.failures = UInt64.ofNat k)
    (hk : k < 5) : (b.recordFailure now).circuitOpen = decide (5 ≤ k + 1) := by
  have hle := cbThreshold_le_iff hk
  simp only [recordFailure, hf, hc, hle]
  split <;> simp_all

theorem recordFailure_of_open (h : b.circuitOpen = true) : (b.recordFailure now).circuitOpen = true := by
  simp [recordFailure, h]

/-- **Counting up to the threshold.** If the breaker has counted `k` failures in a row,
the circuit being open from the fifth on, it has counted `k + 1` after another one. -/
theorem recordFailure_counts {k : Nat} (hfew : k < 5 → b.circuitOpen = false ∧ b.failures = UInt64.ofNat k)
    (hmany : 5 ≤ k → b.circuitOpen = true) :
    (k + 1 < 5 → (b.recordFailure now).circuitOpen = false ∧
        (b.recordFailure now).failures = UInt64.ofNat (k + 1)) ∧
      (5 ≤ k + 1 → (b.recordFailure now).circuitOpen = true) := by
  constructor
  · intro hk
    obtain ⟨hclosed, hfail⟩ := hfew (by omega)
    refine ⟨?_, recordFailure_failures hfail⟩
    rw [recordFailure_of_closed hclosed hfail (by omega)]
    exact decide_eq_false (by omega)
  · intro hk
    by_cases hmore : 5 ≤ k
    · exact recordFailure_of_open (hmany hmore)
    · obtain ⟨hclosed, hfail⟩ := hfew (by omega)
      rw [recordFailure_of_closed hclosed hfail (by omega)]
      exact decide_eq_true hk

@[simp] theorem acquire_url : b.acquire.url = b.url := rfl
@[simp] theorem acquire_active : b.acquire.active = b.active + 1 := rfl
@[simp] theorem acquire_circuitOpen : b.acquire.circuitOpen = b.circuitOpen := rfl
@[simp] theorem release_url : b.release.url = b.url := rfl
@[simp] theorem release_circuitOpen : b.release.circuitOpen = b.circuitOpen := rfl
@[simp] theorem release_lastFailure : b.release.lastFailure = b.lastFailure := rfl
@[simp] theorem recordSuccess_url : b.recordSuccess.url = b.url := rfl
@[simp] theorem recordSuccess_active : b.recordSuccess.active = b.active := rfl
@[simp] theorem recordFailure_url : (b.recordFailure now).url = b.url := rfl
@[simp] theorem recordFailure_active : (b.recordFailure now).active = b.active := rfl

end Backend

end Curf
