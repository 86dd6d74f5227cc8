import Curf.Basic
import Mathlib.Algebra.Order.Ring.Unbundled.Rat

/-!
# The rate limiter

`RateLimiter` keeps one token bucket per client address. Times and tokens are
exact rationals. A call of `is_allowed` reads the clock first and works on the
client's bucket afterwards, under the lock of its entry: `lockedSection` is that
second part, with the clock reading `now` as its argument.
-/

namespace Curf

/-- The token bucket of one address. -/
structure Bucket where
  tokens : Rat
  lastRefill : Rat

structure RateLimiter where
  rps : Rat
  burst : Rat
  buckets : DashMap IpAddr Bucket

/-- `Instant::duration_since`, which is zero when `earlier` is the later one. -/
def durationSince (now earlier : Rat) : Rat := max (now - earlier) 0

namespace RateLimiter

def new (rps burst : UInt32) : RateLimiter where
  rps := rps.toNat
  burst := burst.toNat
  buckets := .empty

/-- The client's bucket; a new one is full. -/
def bucketOf (rl : RateLimiter) (ip : IpAddr) (now : Rat) : Bucket :=
  (rl.buckets ip).getD ⟨rl.burst, now⟩

/-- The tokens after the refill by the time since `last_refill`. -/
def refilled (rl : RateLimiter) (b : Bucket) (now : Rat) : Rat :=
  min (b.tokens + durationSince now b.lastRefill * rl.rps) rl.burst

/-- The part of `is_allowed` that holds the lock of the bucket of `ip`. -/
def lockedSection (rl : RateLimiter) (ip : IpAddr) (now : Rat) : RateLimiter × Bool :=
  let tokens := rl.refilled (rl.bucketOf ip now) now
  if 1 ≤ tokens then ({ rl with buckets := rl.buckets.insert ip ⟨tokens - 1, now⟩ }, true)
  else ({ rl with buckets := rl.buckets.insert ip ⟨tokens, now⟩ }, false)

/-- A whole call whose clock reading is `now`. -/
def isAllowed (rl : RateLimiter) (ip : IpAddr) (now : Rat) : RateLimiter × Bool :=
  if rl.rps = 0 then (rl, true) else rl.lockedSection ip now

variable {rl : RateLimiter} {ip : IpAddr} {now : Rat}

@[simp] theorem lockedSection_rps : (rl.lockedSection ip now).1.rps = rl.rps := by
  unfold lockedSection; dsimp only; split <;> rfl

@[simp] theorem lockedSection_burst : (rl.lockedSection ip now).1.burst = rl.burst := by
  unfold lockedSection; dsimp only; split <;> rfl

/-- A call touches no other client's bucket. -/
theorem lockedSection_other {ip' : IpAddr} (h : ip' ≠ ip) :
    (rl.lockedSection ip now).1.buckets ip' = rl.buckets ip' := by
  unfold lockedSection; dsimp only; split <;> exact DashMap.insert_other _ _ h

end RateLimiter

end Curf
