import Curf.Lib.Exec
import Curf.Balancer.Backend

/-!
# The breaker along a sequence of calls

`Watched` is a backend together with what its history says: the length of the
failure streak (the `record_failure` calls since the creation, the last
`record_success` or the last `is_healthy` call that closed the circuit, whichever
came last) and the time of the last failure. `breaker_law` reads every answer of
`is_healthy` off these two.
-/

namespace Curf

open Lib

inductive BreakerCall where
  | recordSuccess
  | recordFailure (now : UInt64)
  | isHealthy (now : UInt64)

structure Watched where
  backend : Backend
  /-- The latest clock reading. -/
  clock : UInt64
  /-- Failures since the circuit was last closed for good. -/
  streak : Nat
  lastFailureAt : Option UInt64

namespace Watched

def new (url : String) : Watched := ⟨.new url, 0, 0, none⟩

/-- One call; its clock reading is not earlier than the ones before. -/
def step (w : Watched) : BreakerCall → Option Watched
  | .recordSuccess => some { w with backend := w.backend.recordSuccess, streak := 0 }
  | .recordFailure now =>
    if now < w.clock then none
    else some ⟨w.backend.recordFailure now, now, w.streak + 1, some now⟩
  | .isHealthy now =>
    if now < w.clock then none
    else
      let b := (w.backend.isHealthy now).2
      -- the query that closes an open circuit forgets the failures
      some { w with
        backend := b
        clock := now
        streak := if w.backend.circuitOpen = true ∧ b.circuitOpen = false then 0 else w.streak }

/-- The breaker's fields say what the history says. -/
structure Tracks (w : Watched) : Prop where
  failures_eq : w.backend.failures = UInt64.ofNat w.streak
  open_iff : w.backend.circuitOpen = true ↔ 5 ≤ w.streak
  last : ∀ t, w.lastFailureAt = some t → w.backend.lastFailure = t ∧ t ≤ w.clock
  some_last : 0 < w.streak → w.lastFailureAt.isSome

theorem tracks_new (url : String) : Tracks (new url) :=
  ⟨rfl, by simp [new, Backend.new], by simp [new], by simp [new]⟩

theorem Tracks.recordSuccess {w : Watched} (h : Tracks w) :
    Tracks { w with backend := w.backend.recordSuccess, streak := 0 } :=
  ⟨rfl, by simp [Backend.recordSuccess], h.last, by simp⟩

/-- With the circuit closed fewer than five failures are counted, so one more
does not wrap; with it open it stays open. -/
theorem Tracks.recordFailure {w : Watched} (h : Tracks w) (now : UInt64) :
    Tracks ⟨w.backend.recordFailure now, now, w.streak + 1, some now⟩ where
  failures_eq := Backend.recordFailure_failures h.failures_eq
  open_iff := by
    by_cases ho : 5 ≤ w.streak
    · have hopen : (w.backend.recordFailure now).circuitOpen = true :=
        Backend.recordFailure_of_open (h.open_iff.mpr ho)
      exact iff_of_true hopen (Nat.le_succ_of_le ho)
    · have hc : w.backend.circuitOpen = false := by
        simpa using mt h.open_iff.mp ho
      show (w.backend.recordFailure now).circuitOpen = true ↔ _
      rw [Backend.recordFailure_of_closed hc h.failures_eq (by omega), decide_eq_true_eq]
  last := by rintro t ⟨rfl⟩; exact ⟨rfl, UInt64.le_refl _⟩
  some_last := by simp

theorem Tracks.isHealthy {w : Watched} (h : Tracks w) {now : UInt64} (hnow : w.clock ≤ now) :
    Tracks { w with
      backend := (w.backend.isHealthy now).2
      clock := now
      streak := if w.backend.circuitOpen = true ∧ (w.backend.isHealthy now).2.circuitOpen = false
        then 0 else w.streak } := by
  have hlast : ∀ t, w.lastFailureAt = some t → w.backend.lastFailure = t ∧ t ≤ now := fun t ht =>
    ⟨(h.last t ht).1, UInt64.le_trans (h.last t ht).2 hnow⟩
  by_cases ha : w.backend.Available now
  · by_cases hc : w.backend.circuitOpen = false
    · rw [Backend.isHealthy_snd_of_closed hc]
      simp only [hc, Bool.false_eq_true, false_and, if_false]
      exact ⟨h.failures_eq, by simpa [hc] using h.open_iff, hlast, h.some_last⟩
    · have ho : w.backend.circuitOpen = true := by simpa using hc
      have hr : cbResetSecs ≤ now - w.backend.lastFailure := ha.resolve_left hc
      simp only [Backend.isHealthy, ho, hr, Bool.true_eq_false, if_false, if_true, and_self]
      exact ⟨rfl, by simp, hlast, by simp⟩
  · have ho : w.backend.circuitOpen = true := by
      simpa using (not_or.mp ha).1
    rw [Backend.isHealthy_snd_of_not_available ha]
    simp only [ho, Bool.true_eq_false, and_false, if_false]
    exact ⟨h.failures_eq, h.open_iff, hlast, h.some_last⟩

theorem Tracks.step {w w' : Watched} (h : Tracks w) {c : BreakerCall} (hs : step w c = some w') :
    Tracks w' := by
  cases c with
  | recordSuccess => cases hs; exact h.recordSuccess
  | recordFailure now =>
    simp only [Watched.step] at hs
    split at hs
    · cases hs
    · cases hs; exact h.recordFailure now
  | isHealthy now =>
    simp only [Watched.step] at hs
    split at hs
    · cases hs
    · rename_i hnow
      cases hs; exact h.isHealthy (UInt64.not_lt.mp hnow)

theorem tracks_of_run {url : String} {cs : List BreakerCall} {w : Watched}
    (hrun : exec step (new url) cs = some w) : Tracks w :=
  exec_inv (fun _ _ _ h hs => h.step hs) (tracks_new url) hrun

/-- What the history says of an `is_healthy` call at `now`: refused. -/
def Refused (w : Watched) (now : UInt64) : Prop :=
  5 ≤ w.streak ∧ ∃ last, w.lastFailureAt = some last ∧ now.toNat < last.toNat + 30

theorem Tracks.isHealthy_false_iff {w : Watched} (h : Tracks w) {now : UInt64} (hnow : w.clock ≤ now) :
    (w.backend.isHealthy now).1 = false ↔ w.Refused now := by
  rw [Backend.isHealthy_fst, decide_eq_false_iff_not, Backend.Available, not_or,
    Bool.not_eq_false, h.open_iff]
  apply and_congr_right
  intro hs
  obtain ⟨last, hl⟩ := Option.isSome_iff_exists.mp (h.some_last (by omega))
  obtain ⟨he, hle⟩ := h.last last hl
  have hln : last ≤ now := UInt64.le_trans hle hnow
  rw [he, Backend.cbResetSecs_le_iff hln, hl]
  simp only [Option.some.injEq, exists_eq_left']
  omega

/-- Below 2^64 failures in a row the counter has not wrapped. -/
theorem Tracks.open_iff_failures {w : Watched} (h : Tracks w) (hlt : w.streak < 2 ^ 64) :
    w.backend.circuitOpen = true ↔ 5 ≤ w.backend.failures := by
  rw [h.open_iff, h.failures_eq, UInt64.le_iff_toNat_le, UInt64.toNat_ofNat', Nat.mod_eq_of_lt hlt]
  simp only [UInt64.reduceToNat]

/-- **The trace law of the breaker.** After any calls, `is_healthy` refuses
exactly when the streak has reached five and the last failure is less than 30
seconds old; the circuit is open exactly when the streak has reached five, which
`failures` shows as long as the streak fits its 64 bits. -/
theorem breaker_law {url : String} {cs : List BreakerCall} {w : Watched}
    (hrun : exec step (new url) cs = some w) :
    (∀ now, w.clock ≤ now → ((w.backend.isHealthy now).1 = false ↔ w.Refused now)) ∧
      (w.backend.circuitOpen = true ↔ 5 ≤ w.streak) ∧
      (w.streak < 2 ^ 64 → (w.backend.circuitOpen = true ↔ 5 ≤ w.backend.failures)) :=
  have h := tracks_of_run hrun
  ⟨fun _ hnow => h.isHealthy_false_iff hnow, h.open_iff, h.open_iff_failures⟩

/-- Five failures and a success between: at second 40 the breaker refuses. -/
theorem breaker_law_six_failures :
    ∃ w, exec step (new "http://a") [.recordFailure 1, .recordSuccess, .recordFailure 9,
        .recordFailure 10, .recordFailure 10, .recordFailure 11, .recordFailure 12, .isHealthy 40] =
          some w ∧
      (w.clock ≤ 41 → ((w.backend.isHealthy 41).1 = false ↔ w.Refused 41)) := by
  obtain ⟨w, hw⟩ : ∃ w, exec step (new "http://a") [.recordFailure 1, .recordSuccess, .recordFailure 9,
    .recordFailure 10, .recordFailure 10, .recordFailure 11, .recordFailure 12, .isHealthy 40] =
      some w := ⟨_, rfl⟩
  exact ⟨w, hw, (breaker_law hw).1 41⟩

/-! ## The counter wraps -/

/-- Failures can follow each other without end. -/
theorem exec_failures (url : String) (n : Nat) :
    ∃ w, exec step (new url) (List.replicate n (.recordFailure 0)) = some w ∧ w.streak = n ∧
      w.clock = 0 := by
  induction n with
  | zero => exact ⟨_, rfl, rfl, rfl⟩
  | succ n ih =>
    obtain ⟨w, hw, hn, hc⟩ := ih
    refine ⟨⟨w.backend.recordFailure 0, 0, w.streak + 1, some 0⟩, ?_, by simp [hn], rfl⟩
    rw [List.replicate_succ', exec_snoc]
    exact ⟨w, hw, by simp [step, hc]⟩

/-- **`failures` and the circuit part ways.** 2^64 failures in a row leave the
circuit open and the counter at zero. -/
theorem failures_wrap_leaves_circuit_open :
    ¬ ∀ (url : String) (cs : List BreakerCall) (w : Watched), exec step (new url) cs = some w →
      (∀ now, w.clock ≤ now → ((w.backend.isHealthy now).1 = false ↔ w.Refused now)) ∧
        (w.backend.circuitOpen = true ↔ 5 ≤ w.backend.failures) := by
  intro h
  obtain ⟨w, hrun, hn, -⟩ := exec_failures "http://a" (2 ^ 64)
  have ht := tracks_of_run hrun
  have hopen : w.backend.circuitOpen = true := ht.open_iff.mpr (by omega)
  have hzero : w.backend.failures = 0 := by
    rw [ht.failures_eq, hn, ← UInt64.toNat_inj, UInt64.toNat_ofNat']
    simp
  have := (h _ _ w hrun).2.mp hopen
  rw [hzero] at this
  exact absurd this (by decide)

end Watched

end Curf
