import Curf.Lib.Exec
import Curf.Lib.TokenBucket
import Curf.RateLimit.Limiter
import Mathlib.Data.Rat.Cast.Order
import Mathlib.Tactic.NormNum

/-!
# Rate-limited calls under any lock order

Any number of `is_allowed` calls run at once. `read ip now` is a call of `ip`
reading the monotonic clock; `lock ip now` is such a call getting the lock of its
bucket, possibly long after calls that read the clock later. `verdicts` logs the
finished calls, the latest first.

`last_refill` is overwritten with the reading of whoever holds the lock, so a
late call turns the bucket's clock back and the next one is credited with the
same time twice (`late_lock_breaks_window`). In runs whose locks of a bucket are
taken in the order of the readings the bucket follows the ledger of
`Lib.TokenBucket` and every window obeys the bound.
-/

namespace Curf

open Lib Lib.TokenBucket

/-- A finished call: its client, its clock reading and its answer. -/
structure Verdict where
  ip : IpAddr
  now : Rat
  admitted : Bool

/-- The limiter with its calls in progress. -/
structure Limiting where
  limiter : RateLimiter
  clock : Rat
  waiting : List (IpAddr × Rat)
  verdicts : List Verdict

inductive CallEvent where
  | read (ip : IpAddr) (now : Rat)
  | lock (ip : IpAddr) (now : Rat)

namespace Limiting

/-- No call yet. -/
def start (rps burst : UInt32) : Limiting := ⟨.new rps burst, 0, [], []⟩

def step (s : Limiting) : CallEvent → Option Limiting
  | .read ip now =>
    if now < s.clock then none
    -- limiting is off: the call answers at once
    else if s.limiter.rps = 0 then
      some { s with clock := now, verdicts := ⟨ip, now, true⟩ :: s.verdicts }
    else some { s with clock := now, waiting := (ip, now) :: s.waiting }
  | .lock ip now =>
    if (ip, now) ∈ s.waiting then
      some { s with
        limiter := (s.limiter.lockedSection ip now).1
        waiting := s.waiting.erase (ip, now)
        verdicts := ⟨ip, now, (s.limiter.lockedSection ip now).2⟩ :: s.verdicts }
    else none

/-- The clock readings of the admitted calls of `ip`. -/
def admittedTimes (s : Limiting) (ip : IpAddr) : List Rat :=
  (s.verdicts.filter fun v => decide (v.ip = ip) && v.admitted).map (·.now)

/-- The number of admitted calls of `ip` with a reading in `[lo, hi]`. -/
def admittedIn (s : Limiting) (ip : IpAddr) (lo hi : Rat) : Nat := countIn lo hi (s.admittedTimes ip)

/-- A call of `ip` that gets the lock read the clock no earlier than the bucket
was last refilled. -/
def InOrder (ip : IpAddr) (s : Limiting) (e : CallEvent) : Prop :=
  ∀ now b, e = .lock ip now → s.limiter.buckets ip = some b → b.lastRefill ≤ now

instance (ip : IpAddr) (s : Limiting) : ∀ e, Decidable (InOrder ip s e)
  | .read _ _ => .isTrue nofun
  | .lock ip' now =>
    decidable_of_iff (ip' = ip → ∀ b ∈ s.limiter.buckets ip, b.lastRefill ≤ now)
      ⟨fun h now' b he hb => by cases he; exact h rfl b hb, fun h hip b hb => h now b (hip ▸ rfl) hb⟩

end Limiting

/-! ## The bucket follows the ledger -/

/-- The bucket as the library's. -/
def Bucket.view (b : Bucket) : TokenBucket.Bucket Rat := ⟨b.tokens, b.lastRefill⟩

namespace RateLimiter

variable {rl : RateLimiter} {ip : IpAddr} {now : Rat}

/-- With the clock not behind the bucket, the refill is the library's. -/
theorem refilled_eq {b : Bucket} (h : b.lastRefill ≤ now) :
    rl.refilled b now = b.view.refill rl.rps rl.burst now := by
  simp only [refilled, durationSince, Bucket.view, TokenBucket.Bucket.refill,
    max_eq_left (sub_nonneg.mpr h)]

/-- **The locked section takes a token from the library's bucket.** -/
theorem lockedSection_take (h : (rl.bucketOf ip now).lastRefill ≤ now) :
    ((rl.lockedSection ip now).1.buckets ip).map Bucket.view =
        some ((rl.bucketOf ip now).view.take rl.rps rl.burst now).1 ∧
      (rl.lockedSection ip now).2 = ((rl.bucketOf ip now).view.take rl.rps rl.burst now).2 := by
  simp only [lockedSection, refilled_eq h, TokenBucket.Bucket.take]
  split
  · exact ⟨by simp [Bucket.view], rfl⟩
  · exact ⟨by simp [Bucket.view], rfl⟩

end RateLimiter

namespace Limiting

/-- The bucket of `ip` fits the admissions logged for `ip`. -/
structure Fits (rps burst : Rat) (ip : IpAddr) (s : Limiting) : Prop where
  rps_eq : s.limiter.rps = rps
  burst_eq : s.limiter.burst = burst
  fresh : s.limiter.buckets ip = none → s.admittedTimes ip = []
  ledger : ∀ b, s.limiter.buckets ip = some b → Ledger rps burst (s.admittedTimes ip) b.view

variable {rps burst : Rat} {ip : IpAddr} {s s' : Limiting}

theorem admittedTimes_cons (vs : List Verdict) (v : Verdict) (hs : s.verdicts = v :: vs) :
    s.admittedTimes ip =
      if v.ip = ip ∧ v.admitted then v.now :: { s with verdicts := vs }.admittedTimes ip
      else { s with verdicts := vs }.admittedTimes ip := by
  unfold admittedTimes
  rw [hs, List.filter_cons]
  by_cases h : v.ip = ip ∧ v.admitted = true
  · simp [h]
  · rw [if_neg h, if_neg (by simpa using h)]

/-- The ledger a locked section starts from: the bucket's, or that of a full one. -/
theorem Fits.bucketOf (h : Fits rps burst ip s) (hrps : 0 ≤ rps) (hburst : 0 ≤ burst) (now : Rat) :
    Ledger rps burst (s.admittedTimes ip) (s.limiter.bucketOf ip now).view := by
  unfold RateLimiter.bucketOf
  cases hb : s.limiter.buckets ip with
  | none => rw [h.fresh hb, h.burst_eq]; exact .full hrps hburst now
  | some b => exact h.ledger b hb

theorem Fits.lock_self (h : Fits rps burst ip s) (hrps : 0 ≤ rps) (hburst : 0 ≤ burst) {now : Rat}
    (hord : InOrder ip s (.lock ip now)) (hs : step s (.lock ip now) = some s') :
    Fits rps burst ip s' := by
  have hle : (s.limiter.bucketOf ip now).lastRefill ≤ now := by
    unfold RateLimiter.bucketOf
    cases hb : s.limiter.buckets ip with
    | none => exact le_rfl
    | some b => exact hord now b rfl hb
  obtain ⟨hbk, hans⟩ := RateLimiter.lockedSection_take hle
  have hl := (h.bucketOf hrps hburst now).take hrps hburst hle
  simp only [step] at hs
  split at hs
  · cases hs
    refine ⟨by simp [h.rps_eq], by simp [h.burst_eq], fun hn => ?_, fun b hb => ?_⟩
    · change (s.limiter.lockedSection ip now).1.buckets ip = none at hn
      rw [hn] at hbk; cases hbk
    · change (s.limiter.lockedSection ip now).1.buckets ip = some b at hb
      rw [hb] at hbk
      rw [Option.some.inj hbk, admittedTimes_cons _ _ rfl]
      simp only [true_and, hans, h.rps_eq, h.burst_eq]
      exact hl
  · cases hs

/-- What other clients and clock readings do leaves the bucket and the log alone. -/
theorem Fits.frame (h : Fits rps burst ip s) (hb : s'.limiter.buckets ip = s.limiter.buckets ip)
    (hr : s'.limiter.rps = s.limiter.rps) (hbu : s'.limiter.burst = s.limiter.burst)
    (ht : s'.admittedTimes ip = s.admittedTimes ip) : Fits rps burst ip s' :=
  ⟨hr.trans h.rps_eq, hbu.trans h.burst_eq, fun hn => ht ▸ h.fresh (hb ▸ hn),
    fun b hb' => ht ▸ h.ledger b (hb ▸ hb')⟩

theorem Fits.step (h : Fits rps burst ip s) (hrps : 0 < rps) (hburst : 0 ≤ burst) {e : CallEvent}
    (hord : InOrder ip s e) (hs : step s e = some s') : Fits rps burst ip s' := by
  cases e with
  | read ip' now =>
    simp only [Limiting.step, h.rps_eq, hrps.ne', if_false] at hs
    split at hs
    · cases hs
    · cases hs; exact h.frame rfl rfl rfl rfl
  | lock ip' now =>
    by_cases hip : ip' = ip
    · subst hip; exact h.lock_self hrps.le hburst hord hs
    · simp only [Limiting.step] at hs
      split at hs
      · cases hs
        refine h.frame (RateLimiter.lockedSection_other (Ne.symm hip)) (by simp) (by simp) ?_
        rw [admittedTimes_cons _ _ rfl, if_neg fun hc => hip hc.1]
        rfl
      · cases hs

theorem fits_start (rps burst : UInt32) (ip : IpAddr) :
    Fits rps.toNat burst.toNat ip (start rps burst) :=
  ⟨rfl, rfl, fun _ => rfl, fun b hb => by simp [start, RateLimiter.new] at hb⟩

theorem Fits.window (h : Fits rps burst ip s) (hrps : 0 ≤ rps) (hburst : 0 ≤ burst) {lo hi : Rat}
    (hlh : lo ≤ hi) : (s.admittedIn ip lo hi : Rat) ≤ burst + rps * (hi - lo) :=
  (h.bucketOf hrps hburst 0).window lo hi hlh

/-- **The window bound.** In every run whose locks of the bucket of `ip` come in
the order of their clock readings, at most `burst + rps * (hi - lo)` calls of
`ip` with a reading in `[lo, hi]` are admitted. -/
theorem window_bound_of_inOrder {rps burst : UInt32} (hrps : 0 < rps) {es : List CallEvent}
    {s : Limiting} (hrun : exec step (start rps burst) es = some s) {ip : IpAddr}
    (hord : Along step (InOrder ip) (start rps burst) es) {lo hi : Rat} (hlh : lo ≤ hi) :
    (s.admittedIn ip lo hi : Rat) ≤ burst.toNat + rps.toNat * (hi - lo) := by
  have hpos : (0 : Rat) < rps.toNat := by exact_mod_cast UInt32.lt_iff_toNat_lt.mp hrps
  have hburst : (0 : Rat) ≤ burst.toNat := by exact_mod_cast Nat.zero_le _
  have hfits : Fits rps.toNat burst.toNat ip s :=
    exec_inv_along (fun s e s' h ho hs => h.step hpos hburst ho hs) (fits_start rps burst ip) hord hrun
  exact hfits.window hpos.le hburst hlh

/-- Four calls of one client and one of another, with up to four of them waiting at a time. -/
def crossing : List CallEvent :=
  [.read (.v4 7) 3, .read (.v4 9) 3, .read (.v4 7) 4, .read (.v4 7) 4, .lock (.v4 7) 3, .lock (.v4 7) 4,
    .lock (.v4 9) 3, .read (.v4 7) 5, .lock (.v4 7) 4, .lock (.v4 7) 5]

/-- The bound is reached: three calls of one second, at one token a second and a burst of two. -/
theorem window_bound_of_inOrder_crossing :
    ∃ s, exec step (start 1 2) crossing = some s ∧ s.admittedIn (.v4 7) 3 4 = 3 ∧
      (s.admittedIn (.v4 7) 3 4 : Rat) ≤ (2 : UInt32).toNat + (1 : UInt32).toNat * (4 - 3) := by
  have hthree : (exec step (start 1 2) crossing).map (·.admittedIn (.v4 7) 3 4) = some 3 := by decide +kernel
  obtain ⟨s, hs, hcount⟩ := Option.map_eq_some_iff.mp hthree
  have hord : Along step (InOrder (.v4 7)) (start 1 2) crossing := by decide +kernel
  exact ⟨s, hs, hcount, window_bound_of_inOrder (by decide) hs hord (by norm_num)⟩

/-! ## Locks out of order -/

/-- Three calls of one client: the first reads the clock at 0 and gets the lock
between two calls that read it at 10. -/
def lateLock : List CallEvent :=
  let ip := IpAddr.v4 7
  [.read ip 0, .read ip 10, .read ip 10, .lock ip 10, .lock ip 0, .lock ip 10]

/-- **A late lock breaks the window bound.** With one token per second and a
burst of one, two calls are admitted at the instant 10. -/
theorem late_lock_breaks_window :
    ¬ ∀ (rps burst : UInt32), 0 < rps → ∀ (es : List CallEvent) (s : Limiting),
      exec step (start rps burst) es = some s → ∀ (ip : IpAddr) (lo hi : Rat), lo ≤ hi →
        (s.admittedIn ip lo hi : Rat) ≤ burst.toNat + rps.toNat * (hi - lo) := by
  intro h
  have htwo : (exec step (start 1 1) lateLock).map (·.admittedIn (.v4 7) 10 10) = some 2 := by
    decide +kernel
  obtain ⟨s, hrun, hs⟩ := Option.map_eq_some_iff.mp htwo
  have := h 1 1 (by decide) lateLock s hrun (.v4 7) 10 10 le_rfl
  rw [hs, show (1 : UInt32).toNat = 1 from rfl] at this
  norm_num at this

end Limiting
end Curf
