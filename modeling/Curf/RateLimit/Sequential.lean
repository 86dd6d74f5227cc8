import Curf.RateLimit.Interleaving

/-!
# Rate-limited calls one after another

Calls that are not interleaved: each reads the clock and gets the lock at once
(`call_eq_read_lock`), so the bucket's clock never turns back. `Lawful` ties the
bucket of an address to the admissions logged for it by the exact ledger of
`Lib.TokenBucket`, and `sliding_window_law` reads every answer off the log.
-/

namespace Curf

open Lib Lib.TokenBucket

namespace Limiting

/-- No call yet, at the time `t0`. -/
def startAt (rps burst : UInt32) (t0 : Rat) : Limiting := { start rps burst with clock := t0 }

/-- A whole call of `is_allowed` by the address `c.1` with the clock reading `c.2`. -/
def call (s : Limiting) (c : IpAddr × Rat) : Option Limiting :=
  if c.2 < s.clock then none
  else some { s with
    limiter := (s.limiter.isAllowed c.1 c.2).1
    clock := c.2
    verdicts := ⟨c.1, c.2, (s.limiter.isAllowed c.1 c.2).2⟩ :: s.verdicts }

/-- A whole call is a reading of the clock followed at once by its locked section. -/
theorem call_eq_read_lock {s : Limiting} (hrps : s.limiter.rps ≠ 0) (ip : IpAddr) (now : Rat) :
    s.call (ip, now) = exec step s [.read ip now, .lock ip now] := by
  unfold call RateLimiter.isAllowed
  by_cases hnow : now < s.clock
  · simp [exec, step, hnow]
  · simp [exec, step, hnow, hrps]

/-- The bucket of `ip` is what the admissions logged for `ip` leave of it. -/
structure Lawful (rps burst : Rat) (ip : IpAddr) (s : Limiting) : Prop where
  rps_eq : s.limiter.rps = rps
  burst_eq : s.limiter.burst = burst
  fresh : s.limiter.buckets ip = none → s.admittedTimes ip = []
  exact : ∀ b, s.limiter.buckets ip = some b → Exact rps burst (s.admittedTimes ip) b.view
  clock : ∀ b, s.limiter.buckets ip = some b → b.lastRefill ≤ s.clock

variable {rps burst : Rat} {ip : IpAddr} {s s' : Limiting} {now : Rat}

theorem lawful_startAt (rps burst : UInt32) (t0 : Rat) (ip : IpAddr) :
    Lawful rps.toNat burst.toNat ip (startAt rps burst t0) :=
  ⟨rfl, rfl, fun _ => rfl, fun _ hb => (nomatch hb), fun _ hb => (nomatch hb)⟩

/-- What a call of `ip` finds. -/
theorem Lawful.bucketOf (h : Lawful rps burst ip s) (hrps : 0 ≤ rps) (hburst : 0 ≤ burst)
    (hnow : s.clock ≤ now) :
    Exact rps burst (s.admittedTimes ip) (s.limiter.bucketOf ip now).view ∧
      (s.limiter.bucketOf ip now).lastRefill ≤ now := by
  unfold RateLimiter.bucketOf
  cases hb : s.limiter.buckets ip with
  | none => rw [h.fresh hb, h.burst_eq]; exact ⟨.full hrps hburst now, le_rfl⟩
  | some b => exact ⟨h.exact b hb, (h.clock b hb).trans hnow⟩

theorem Lawful.isAllowed (h : Lawful rps burst ip s) (hrps : 0 < rps) (a : IpAddr) (now : Rat) :
    s.limiter.isAllowed a now = s.limiter.lockedSection a now := by
  rw [RateLimiter.isAllowed, if_neg (by rw [h.rps_eq]; exact hrps.ne')]

/-- The times admitted after a call. -/
theorem admittedTimes_call {c : IpAddr × Rat} (hs : s.call c = some s') :
    s'.admittedTimes ip =
      if c.1 = ip ∧ (s.limiter.isAllowed c.1 c.2).2 then c.2 :: s.admittedTimes ip
      else s.admittedTimes ip := by
  unfold call at hs
  split at hs
  · cases hs
  · cases hs
    rw [admittedTimes_cons _ _ rfl]
    rfl

/-- A call is not earlier than the calls before it, and the clock shows it. -/
theorem clock_call {c : IpAddr × Rat} (hs : s.call c = some s') : s.clock ≤ c.2 ∧ s'.clock = c.2 := by
  unfold call at hs
  split at hs
  · cases hs
  · rename_i hnow
    cases hs
    exact ⟨not_lt.mp hnow, rfl⟩

theorem limiter_call {c : IpAddr × Rat} (hs : s.call c = some s') :
    s'.limiter = (s.limiter.isAllowed c.1 c.2).1 := by
  unfold call at hs
  split at hs
  · cases hs
  · cases hs; rfl

theorem Lawful.call_self (h : Lawful rps burst ip s) (hrps : 0 < rps) (hburst : 0 ≤ burst)
    (hs : s.call (ip, now) = some s') : Lawful rps burst ip s' := by
  obtain ⟨hnow, hclock⟩ := clock_call hs
  have hlim := limiter_call hs
  have htimes : s'.admittedTimes ip = _ := admittedTimes_call hs
  rw [h.isAllowed hrps] at hlim htimes
  obtain ⟨hexact, hle⟩ := h.bucketOf hrps.le hburst hnow
  obtain ⟨hbk, hans⟩ := RateLimiter.lockedSection_take hle
  rw [← hlim] at hbk
  have htake := hexact.take hrps.le hburst hle
  have hstamp : ∀ b, s'.limiter.buckets ip = some b → b.lastRefill = now := by
    intro b hb
    rw [hb] at hbk
    have := congrArg TokenBucket.Bucket.stamp (Option.some.inj hbk)
    unfold TokenBucket.Bucket.take at this
    split at this <;> exact this
  refine ⟨by rw [hlim]; simp [h.rps_eq], by rw [hlim]; simp [h.burst_eq], fun hn => ?_, fun b hb => ?_,
    fun b hb => ?_⟩
  · rw [hn] at hbk; cases hbk
  · rw [hb] at hbk
    rw [Option.some.inj hbk, htimes]
    simp only [true_and, hans, h.rps_eq, h.burst_eq]
    exact htake
  · rw [hstamp b hb, hclock]

/-- The call of another address leaves the bucket and the log of `ip` alone. -/
theorem Lawful.call_other (h : Lawful rps burst ip s) (hrps : 0 < rps) {c : IpAddr × Rat} (hc : c.1 ≠ ip)
    (hs : s.call c = some s') : Lawful rps burst ip s' := by
  obtain ⟨hnow, hclock⟩ := clock_call hs
  have hlim := limiter_call hs
  rw [h.isAllowed hrps] at hlim
  have htimes : s'.admittedTimes ip = s.admittedTimes ip := by
    rw [admittedTimes_call hs, if_neg fun h => hc h.1]
  have hbk : s'.limiter.buckets ip = s.limiter.buckets ip := by
    rw [hlim]; exact RateLimiter.lockedSection_other (Ne.symm hc)
  refine ⟨by rw [hlim]; simp [h.rps_eq], by rw [hlim]; simp [h.burst_eq], ?_, ?_, ?_⟩
  · rw [hbk, htimes]; exact h.fresh
  · rw [hbk, htimes]; exact h.exact
  · rw [hbk, hclock]; exact fun b hb => (h.clock b hb).trans hnow

theorem Lawful.call (h : Lawful rps burst ip s) (hrps : 0 < rps) (hburst : 0 ≤ burst) {c : IpAddr × Rat}
    (hs : s.call c = some s') : Lawful rps burst ip s' := by
  obtain ⟨a, now⟩ := c
  by_cases ha : a = ip
  · subst ha; exact h.call_self hrps hburst hs
  · exact h.call_other hrps ha hs

/-- The answer is a matter of the admissions logged. -/
theorem Lawful.admits_iff (h : Lawful rps burst ip s) (hrps : 0 < rps) (hburst : 0 ≤ burst)
    (hnow : s.clock ≤ now) :
    (s.limiter.isAllowed ip now).2 = true ↔
      1 ≤ burst ∧ ∀ t ∈ s.admittedTimes ip, (s.admittedIn ip t now : Rat) + 1 ≤ burst + rps * (now - t) := by
  obtain ⟨hexact, hle⟩ := h.bucketOf hrps.le hburst hnow
  rw [h.isAllowed hrps, (RateLimiter.lockedSection_take hle).2, h.rps_eq, h.burst_eq]
  exact hexact.admits_iff hrps.le hburst hle

/-! ## Calls that do not count -/

/-- Two histories with the same admissions of `ip`, the second not ahead of the first. -/
structure Alike (rps burst : Rat) (ip : IpAddr) (s s' : Limiting) : Prop where
  left : Lawful rps burst ip s
  right : Lawful rps burst ip s'
  times : s'.admittedTimes ip = s.admittedTimes ip
  clock : s'.clock ≤ s.clock

/-- They answer alike. -/
theorem Alike.isAllowed (h : Alike rps burst ip s s') (hrps : 0 < rps) (hburst : 0 ≤ burst)
    (hnow : s.clock ≤ now) : (s'.limiter.isAllowed ip now).2 = (s.limiter.isAllowed ip now).2 := by
  rw [Bool.eq_iff_iff, h.right.admits_iff hrps hburst (h.clock.trans hnow),
    h.left.admits_iff hrps hburst hnow]
  simp only [admittedIn, h.times]

/-- They stay alike under the same call. -/
theorem Alike.call (h : Alike rps burst ip s s') (hrps : 0 < rps) (hburst : 0 ≤ burst) {c : IpAddr × Rat}
    {m : Limiting} (hs : s.call c = some m) : ∃ m', s'.call c = some m' ∧ Alike rps burst ip m m' := by
  obtain ⟨hnow, hclock⟩ := clock_call hs
  obtain ⟨m', hm'⟩ : ∃ m', s'.call c = some m' := by
    unfold Limiting.call
    rw [if_neg (not_lt.mpr (h.clock.trans hnow))]
    exact ⟨_, rfl⟩
  refine ⟨m', hm', h.left.call hrps hburst hs, h.right.call hrps hburst hm', ?_, ?_⟩
  · rw [admittedTimes_call hs, admittedTimes_call hm', h.times]
    by_cases hc : c.1 = ip
    · rw [hc, h.isAllowed hrps hburst hnow]
    · rw [if_neg fun h => hc h.1, if_neg fun h => hc h.1]
  · rw [hclock, (clock_call hm').2]

theorem Alike.exec (h : Alike rps burst ip s s') (hrps : 0 < rps) (hburst : 0 ≤ burst)
    {cs : List (IpAddr × Rat)} {m : Limiting} (hrun : exec Limiting.call s cs = some m) :
    ∃ m', Lib.exec Limiting.call s' cs = some m' ∧ Alike rps burst ip m m' := by
  induction cs generalizing s s' with
  | nil => cases hrun; exact ⟨s', rfl, h⟩
  | cons c cs ih =>
    obtain ⟨a, ha, hrun⟩ := exec_cons.mp hrun
    obtain ⟨a', ha', hal⟩ := h.call hrps hburst ha
    obtain ⟨m', hm', hal'⟩ := ih hal hrun
    exact ⟨m', exec_cons.mpr ⟨a', ha', hm'⟩, hal'⟩

/-- **The exact sequential law.** After any calls, the next call of `ip` is admitted
exactly when the burst is at least one and, from each earlier admission of `ip` to
the call, the window has room for it. Taking out a call of another address or a
rejected call changes no answer to `ip` after it. -/
theorem sliding_window_law {rps burst : UInt32} (hrps : 0 < rps) {t0 : Rat} {cs : List (IpAddr × Rat)}
    {s : Limiting} (hrun : exec Limiting.call (startAt rps burst t0) cs = some s) (ip : IpAddr) {now : Rat}
    (hnow : s.clock ≤ now) :
    ((s.limiter.isAllowed ip now).2 = true ↔
        1 ≤ burst.toNat ∧ ∀ t ∈ s.admittedTimes ip,
          (s.admittedIn ip t now : Rat) + 1 ≤ burst.toNat + rps.toNat * (now - t)) ∧
      ∀ pre c post m, cs = pre ++ c :: post → exec Limiting.call (startAt rps burst t0) pre = some m →
        c.1 ≠ ip ∨ (m.limiter.isAllowed c.1 c.2).2 = false →
        ∃ s', exec Limiting.call (startAt rps burst t0) (pre ++ post) = some s' ∧
          (s'.limiter.isAllowed ip now).2 = (s.limiter.isAllowed ip now).2 := by
  have hpos : (0 : Rat) < rps.toNat := by exact_mod_cast UInt32.lt_iff_toNat_lt.mp hrps
  have hburst : (0 : Rat) ≤ burst.toNat := by exact_mod_cast Nat.zero_le _
  have hlaw {es : List (IpAddr × Rat)} {m : Limiting}
      (hm : exec Limiting.call (startAt rps burst t0) es = some m) : Lawful rps.toNat burst.toNat ip m :=
    exec_inv (fun _ _ _ h hs => h.call hpos hburst hs) (lawful_startAt rps burst t0 ip) hm
  constructor
  · rw [(hlaw hrun).admits_iff hpos hburst hnow]
    exact and_congr_left' (by exact_mod_cast Iff.rfl)
  · rintro pre c post m rfl hm hc
    obtain ⟨m₁, hm₁, hrun⟩ := exec_append.mp hrun
    rw [hm] at hm₁
    cases hm₁
    obtain ⟨m', hm', hrun⟩ := exec_cons.mp hrun
    obtain ⟨hcnow, hcclock⟩ := clock_call hm'
    have htimes : m.admittedTimes ip = m'.admittedTimes ip := by
      rw [admittedTimes_call hm']
      rcases hc with hc | hc
      · rw [if_neg fun h => hc h.1]
      · rw [if_neg fun h => by rw [hc] at h; exact absurd h.2 (by decide)]
    have hlike : Alike rps.toNat burst.toNat ip m' m :=
      ⟨(hlaw hm).call hpos hburst hm', hlaw hm, htimes, by rw [hcclock]; exact hcnow⟩
    obtain ⟨s', hs', hlike'⟩ := hlike.exec hpos hburst hrun
    exact ⟨s', exec_append.mpr ⟨m, hm, hs'⟩, hlike'.isAllowed hpos hburst hnow⟩

/-- With one token a second, a call a second after an admission is admitted. -/
theorem sliding_window_law_refilled :
    ∃ s, exec Limiting.call (startAt 1 1 3) [(.v4 7, 3), (.v4 8, 3)] = some s ∧
      (s.limiter.isAllowed (.v4 7) 4).2 = true := by
  obtain ⟨s, hs⟩ : ∃ s, exec Limiting.call (startAt 1 1 3) [(.v4 7, 3), (.v4 8, 3)] = some s := ⟨_, rfl⟩
  have hclock : s.clock = 3 := by cases hs; rfl
  have htimes : s.admittedTimes (.v4 7) = [3] := by cases hs; decide +kernel
  have hin : s.admittedIn (.v4 7) 3 4 = 1 := by unfold admittedIn; rw [htimes]; decide +kernel
  have hlaw := (sliding_window_law (by decide) hs (.v4 7) (show s.clock ≤ 4 by rw [hclock]; norm_num)).1
  refine ⟨s, hs, hlaw.mpr ⟨by decide, fun t ht => ?_⟩⟩
  rw [htimes, List.mem_singleton] at ht
  subst ht
  rw [hin, show (1 : UInt32).toNat = 1 from rfl]
  norm_num

end Limiting

end Curf
