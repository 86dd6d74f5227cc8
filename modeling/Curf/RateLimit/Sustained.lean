import Mathlib.Data.List.Chain
import Curf.RateLimit.Interleaving

/-!
# Clients within the sustained rate

A client whose requests are at least `1 / rps` apart spends no more than its bucket
gains. The bucket holds `burst` tokens, so with a burst of zero it never has the token
that a request takes: `sustained_rate_iff`.
-/

namespace Curf

open Lib

namespace RateLimiter

/-- Calls one after another, with their answers. The clock readings of different addresses
need not be in order. -/
def answers (rl : RateLimiter) : List (IpAddr × Rat) → List (IpAddr × Bool)
  | [] => []
  | c :: cs => (c.1, (rl.isAllowed c.1 c.2).2) :: (rl.isAllowed c.1 c.2).1.answers cs

/-- When the address calls. -/
def callTimes (ip : IpAddr) (cs : List (IpAddr × Rat)) : List Rat := (cs.filter fun c => c.1 = ip).map (·.2)

/-- The calls of the address are at least `1 / rps` apart. -/
def WithinRate (rps : Rat) (ip : IpAddr) (cs : List (IpAddr × Rat)) : Prop :=
  (callTimes ip cs).IsChain fun t t' => 1 / rps ≤ t' - t

/-- The bucket of the address has a token by the time `t`. -/
def HasToken (rl : RateLimiter) (ip : IpAddr) (t : Rat) : Prop := 1 ≤ rl.refilled (rl.bucketOf ip t) t

variable {rl : RateLimiter} {ip : IpAddr} {now next : Rat} {cs : List (IpAddr × Rat)}

theorem isAllowed_of_rps_pos (hrps : 0 < rl.rps) (ip : IpAddr) (now : Rat) :
    rl.isAllowed ip now = rl.lockedSection ip now := if_neg hrps.ne'

theorem lockedSection_snd : (rl.lockedSection ip now).2 = true ↔ rl.HasToken ip now := by
  unfold lockedSection HasToken
  dsimp only
  split
  · rename_i hone; exact iff_of_true rfl hone
  · rename_i hone; exact iff_of_false Bool.false_ne_true hone

/-- A new bucket is full. -/
theorem hasToken_of_none (hnone : rl.buckets ip = none) (hburst : 1 ≤ rl.burst) : rl.HasToken ip now := by
  unfold HasToken bucketOf refilled durationSince
  rw [hnone]
  simpa using hburst

/-- After an admitted call the next token is there when it has been gained. -/
theorem HasToken.lockedSection (h : rl.HasToken ip now) (hrps : 0 < rl.rps) (hburst : 1 ≤ rl.burst)
    (hgap : 1 / rl.rps ≤ next - now) : (rl.lockedSection ip now).1.HasToken ip next := by
  have hle : now ≤ next := sub_nonneg.mp ((one_div_nonneg.mpr hrps.le).trans hgap)
  have hgain : 1 ≤ (next - now) * rl.rps := (div_le_iff₀ hrps).mp hgap
  have hbucket : (rl.lockedSection ip now).1.bucketOf ip next = ⟨rl.refilled (rl.bucketOf ip now) now - 1, now⟩ := by
    unfold RateLimiter.lockedSection
    dsimp only
    rw [if_pos (show 1 ≤ rl.refilled (rl.bucketOf ip now) now from h)]
    simp [bucketOf]
  unfold HasToken
  rw [refilled_eq (by rw [hbucket]; exact hle), lockedSection_rps, lockedSection_burst, hbucket]
  exact TokenBucket.Bucket.one_le_refill (sub_nonneg.mpr h) hburst hgain

/-- The calls of others do not touch the bucket. -/
theorem hasToken_lockedSection_other {a : IpAddr} (ha : ip ≠ a) :
    (rl.lockedSection a now).1.HasToken ip next ↔ rl.HasToken ip next := by
  unfold HasToken bucketOf refilled
  rw [lockedSection_other ha, lockedSection_rps, lockedSection_burst]

/-- **A run within the rate.** If the first call finds a token, every call does. -/
theorem answers_of_withinRate (hrps : 0 < rl.rps) (hburst : 1 ≤ rl.burst) (hrate : WithinRate rl.rps ip cs)
    (hfirst : ∀ t ∈ (callTimes ip cs).head?, rl.HasToken ip t) : ∀ ok, (ip, ok) ∈ rl.answers cs → ok = true := by
  induction cs generalizing rl with
  | nil => exact fun ok h => nomatch h
  | cons c cs ih =>
    obtain ⟨a, now⟩ := c
    have hrps' : 0 < (rl.lockedSection a now).1.rps := by rwa [lockedSection_rps]
    have hburst' : 1 ≤ (rl.lockedSection a now).1.burst := by rwa [lockedSection_burst]
    intro ok hok
    rw [answers, isAllowed_of_rps_pos hrps, List.mem_cons] at hok
    by_cases ha : a = ip
    · subst ha
      have htimes : callTimes a ((a, now) :: cs) = now :: callTimes a cs := by simp [callTimes]
      have hnow : rl.HasToken a now := hfirst now (by rw [htimes]; rfl)
      unfold WithinRate at hrate
      rw [htimes] at hrate
      rcases hok with he | hok
      · rw [(Prod.mk.inj he).2]
        exact lockedSection_snd.mpr hnow
      · refine ih hrps' hburst' ?_ (fun t ht => ?_) ok hok
        · rw [WithinRate, lockedSection_rps]
          exact hrate.tail
        · have hgap : 1 / rl.rps ≤ t - now := hrate.rel_head? ht
          exact hnow.lockedSection hrps hburst hgap
    · have htimes : callTimes ip ((a, now) :: cs) = callTimes ip cs := by simp [callTimes, ha]
      unfold WithinRate at hrate
      rw [htimes] at hrate hfirst
      rcases hok with he | hok
      · exact absurd (Prod.mk.inj he).1.symm ha
      · refine ih hrps' hburst' ?_ (fun t ht => ?_) ok hok
        · rwa [WithinRate, lockedSection_rps]
        · exact (hasToken_lockedSection_other (Ne.symm ha)).mpr (hfirst t ht)

/-- Without a burst no bucket has a token. -/
theorem answers_of_burst_zero (hrps : 0 < rl.rps) (hburst : rl.burst = 0) :
    ∀ a ∈ rl.answers cs, a.2 = false := by
  induction cs generalizing rl with
  | nil => exact fun a h => nomatch h
  | cons c cs ih =>
    intro a ha
    rw [answers, isAllowed_of_rps_pos hrps, List.mem_cons] at ha
    rcases ha with rfl | ha
    · rw [Bool.eq_false_iff, Ne, lockedSection_snd, HasToken, not_le]
      have hcap : rl.refilled (rl.bucketOf c.1 c.2) c.2 ≤ rl.burst := min_le_right _ _
      exact hcap.trans_lt (hburst ▸ zero_lt_one)
    · exact ih (by rwa [lockedSection_rps]) (by rwa [lockedSection_burst]) a ha

/-- Each call has its answer. -/
theorem answers_fst (rl : RateLimiter) (cs : List (IpAddr × Rat)) : (rl.answers cs).map (·.1) = cs.map (·.1) := by
  induction cs generalizing rl with
  | nil => rfl
  | cons c cs ih => rw [answers, List.map_cons, List.map_cons, ih]

theorem exists_answer_iff : (∃ ok, (ip, ok) ∈ rl.answers cs) ↔ ∃ c ∈ cs, c.1 = ip := by
  have hmem : ip ∈ (rl.answers cs).map (·.1) ↔ ip ∈ cs.map (·.1) := by rw [answers_fst]
  simpa using hmem

/-- **Compliant clients.** A client within the rate has every call admitted exactly when the
burst is at least one, or it does not call at all. -/
theorem sustained_rate_iff {rps burst : UInt32} (hrps : 1 ≤ rps) {ip : IpAddr} {cs : List (IpAddr × Rat)}
    (hrate : WithinRate rps.toNat ip cs) :
    (∀ ok, (ip, ok) ∈ (new rps burst).answers cs → ok = true) ↔ 1 ≤ burst ∨ ∀ c ∈ cs, c.1 ≠ ip := by
  have hpos : 0 < (new rps burst).rps := by
    show (0 : Rat) < rps.toNat
    exact_mod_cast UInt32.le_iff_toNat_le.mp hrps
  constructor
  · intro h
    by_contra hnot
    obtain ⟨hburst, hcall⟩ := not_or.mp hnot
    push Not at hcall
    obtain ⟨c, hc, rfl⟩ := hcall
    have hzero : (new rps burst).burst = 0 := by
      rw [UInt32.le_iff_toNat_le, UInt32.toNat_one] at hburst
      have hnat : burst.toNat = 0 := by omega
      show (burst.toNat : Rat) = 0
      rw [hnat, Nat.cast_zero]
    obtain ⟨ok, hok⟩ : ∃ ok, (c.1, ok) ∈ (new rps burst).answers cs := exists_answer_iff.mpr ⟨c, hc, rfl⟩
    have hno := answers_of_burst_zero hpos hzero _ hok
    have hyes := h ok hok
    rw [hyes] at hno
    cases hno
  · rintro (hburst | hnone)
    · have hone : 1 ≤ (new rps burst).burst := by
        show (1 : Rat) ≤ burst.toNat
        exact_mod_cast UInt32.le_iff_toNat_le.mp hburst
      exact answers_of_withinRate hpos hone hrate fun t _ => hasToken_of_none rfl hone
    · intro ok hok
      obtain ⟨c, hc, he⟩ := exists_answer_iff.mp ⟨ok, hok⟩
      exact absurd he (hnone c hc)

/-- One request a second is always admitted, whatever another client does. -/
theorem sustained_rate_iff_steady :
    WithinRate 1 (.v4 7) [(.v4 7, 0), (.v4 8, 0), (.v4 8, 1 / 2), (.v4 7, 1)] ∧
      ∀ ok, (.v4 7, ok) ∈ (new 1 1).answers [(.v4 7, 0), (.v4 8, 0), (.v4 8, 1 / 2), (.v4 7, 1)] → ok = true := by
  have hrate : WithinRate 1 (.v4 7) [(.v4 7, 0), (.v4 8, 0), (.v4 8, 1 / 2), (.v4 7, 1)] := by
    simp [WithinRate, callTimes]
  exact ⟨hrate, (@sustained_rate_iff 1 1 (by decide) (.v4 7) _ hrate).mpr (.inl (by decide))⟩

/-- **A burst of zero.** The first request of a client is rejected. -/
theorem zero_burst_rejects :
    ¬ ∀ (rps burst : UInt32) (ip : IpAddr) (cs : List (IpAddr × Rat)), 1 ≤ rps → WithinRate rps.toNat ip cs →
      ∀ ok, (ip, ok) ∈ (new rps burst).answers cs → ok = true := by
  intro h
  have hanswer := h 1 0 (.v4 7) [(.v4 7, 0)] (by decide) (.singleton _)
    ((new 1 0).isAllowed (.v4 7) 0).2 List.mem_cons_self
  have hrejected : ((new 1 0).isAllowed (.v4 7) 0).2 = false := by decide +kernel
  rw [hrejected] at hanswer
  cases hanswer

end RateLimiter

end Curf
