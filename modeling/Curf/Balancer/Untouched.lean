import Curf.Balancer.Pick

/-!
# The breakers of the backends that are not returned

Asking a backend whether it is healthy can close its circuit. A strategy that walks
asks in vain until it comes to the backend it returns, and a question in vain changes
nothing. `least_connections` asks them all: `touchesOnlyReturned_iff` says when that
half-opens the circuit of a backend that is not returned.
-/

namespace Curf

open Lib

/-- What the circuit breaker of a backend remembers. -/
def Backend.breaker (b : Backend) : UInt64 × UInt64 × Bool := (b.failures, b.lastFailure, b.circuitOpen)

namespace LoadBalancer

/-- The circuit of the backend in position `i` is open, and its 30 seconds are up. -/
def ExpiredAt (bs : List Backend) (now : UInt64) (i : Nat) : Prop :=
  ∃ b, bs[i]? = some b ∧ b.circuitOpen = true ∧ cbResetSecs ≤ now - b.lastFailure

/-- `select` leaves the breakers of all backends that it does not return as they are. -/
def TouchesOnlyReturned (lb : LoadBalancer) (ip : Option IpAddr) (now : UInt64) : Prop :=
  ∀ j b, lb.backends[j]? = some b → (∀ url, (lb.select ip now).1 ≠ some (url, j)) →
    ∃ b', (lb.select ip now).2.backends[j]? = some b' ∧ b'.breaker = b.breaker

variable {lb : LoadBalancer} {bs : List Backend} {ip : Option IpAddr} {now : UInt64} {i j : Nat}

/-- The question changes the breaker of an open circuit whose time is up, and no other. -/
theorem isHealthy_breaker_iff {b : Backend} :
    (b.isHealthy now).2.breaker = b.breaker ↔ ¬ (b.circuitOpen = true ∧ cbResetSecs ≤ now - b.lastFailure) := by
  by_cases ho : b.circuitOpen = true
  · by_cases hup : cbResetSecs ≤ now - b.lastFailure
    · simp [Backend.isHealthy, Backend.breaker, ho, hup]
    · simp [Backend.isHealthy, ho, hup]
  · rw [Bool.not_eq_true] at ho
    simp [Backend.isHealthy_snd_of_closed ho, ho]

theorem ExpiredAt.available (h : ExpiredAt bs now i) : AvailableAt bs now i := by
  obtain ⟨b, hb, -, hup⟩ := h
  exact ⟨b, hb, .inr hup⟩

theorem not_returned_iff : (∀ url, (lb.select ip now).1 ≠ some (url, j)) ↔ lb.pick ip now ≠ some j := by
  rw [select_fst]
  cases lb.pick ip now with
  | none => simp
  | some i => simp

/-- What is left of a breaker that is not returned. -/
theorem touchesOnlyReturned_iff_pick : lb.TouchesOnlyReturned ip now ↔
    (lb.strategy = .leastConnections → ∀ i, ExpiredAt lb.backends now i → lb.pick ip now = some i) := by
  unfold TouchesOnlyReturned
  simp only [not_returned_iff]
  constructor
  · rintro h hlc i ⟨b, hb, hexp⟩
    by_contra hp
    obtain ⟨b', hb', hsame⟩ := h i b hb hp
    rw [select_backend hb, afterSelect, if_neg hp, if_pos hlc] at hb'
    obtain rfl := Option.some.inj hb'
    exact isHealthy_breaker_iff.mp hsame hexp
  · intro h j b hb hp
    refine ⟨_, select_backend hb, ?_⟩
    rw [afterSelect, if_neg hp]
    split
    · rename_i hlc
      exact isHealthy_breaker_iff.mpr fun hexp => hp (h hlc j ⟨b, hb, hexp⟩)
    · rfl

/-- `least_connections` returns the available backend that is before all others by its
active requests and then its position. -/
theorem pick_leastConnections_iff (hlc : lb.strategy = .leastConnections) (hi : AvailableAt lb.backends now i) :
    lb.pick ip now = some i ↔
      ∀ j, j ≠ i → AvailableAt lb.backends now j → Earlier (activeAt lb.backends) (· < ·) i j := by
  have hvisits : ∀ j, AvailableAt lb.backends now j → j ∈ lb.visits ip := by
    intro j hj
    unfold visits
    rw [hlc]
    exact List.mem_range.mpr hj.lt
  rw [pick_eq_some_iff, and_iff_right (hvisits i hi), and_iff_right hi]
  unfold Ahead
  rw [hlc]
  dsimp only
  constructor
  · intro h j hne hj
    exact (Earlier.total (Nat.lt_or_gt_of_ne hne)).resolve_left (h j (hvisits j hj) hj)
  · intro h j _ hj
    by_cases hne : j = i
    · subst hne
      exact fun he => he.asymm (fun a b h => Nat.lt_asymm h) he
    · exact (h j hne hj).asymm fun a b h => Nat.lt_asymm h

/-- **Which breakers `select` touches.** It changes that of no backend but the one it
returns exactly when the strategy is not `least_connections`, or each available backend
whose circuit is open has fewer active requests than the other available ones, or as
many and an earlier position. -/
theorem touchesOnlyReturned_iff (lb : LoadBalancer) (ip : Option IpAddr) (now : UInt64) :
    lb.TouchesOnlyReturned ip now ↔
      lb.strategy ≠ .leastConnections ∨
        ∀ i, ExpiredAt lb.backends now i →
          ∀ j, j ≠ i → AvailableAt lb.backends now j → Earlier (activeAt lb.backends) (· < ·) i j := by
  rw [touchesOnlyReturned_iff_pick, Ne, ← imp_iff_not_or]
  refine forall_congr' fun hlc => forall₂_congr fun i hexp => ?_
  exact pick_leastConnections_iff hlc hexp.available

/-- **A circuit half-opened in passing.** The first backend is idle; the time of the
second one, which is not returned, is up. -/
theorem other_breaker_reset :
    ¬ ∀ (lb : LoadBalancer) (ip : Option IpAddr) (now : UInt64), lb.TouchesOnlyReturned ip now := by
  intro h
  have := (touchesOnlyReturned_iff_pick.mp (h
    ⟨[⟨"http://a", 0, 0, 0, false⟩, ⟨"http://b", 0, 5, 100, true⟩], .leastConnections, 0⟩ none 130)) rfl 1
    ⟨_, rfl, rfl, by decide⟩
  exact absurd this (by decide)

end LoadBalancer

end Curf
