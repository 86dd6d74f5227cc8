import Mathlib.Algebra.Order.Field.Basic
import Mathlib.Tactic.Linarith
import Mathlib.Tactic.Ring

/-!
# Token buckets

A bucket holds at most `cap` tokens and gains `rate` tokens per unit of time.
`Bucket.take` refills it up to the present and, when at least one token is
there, admits and spends one.

`Ledger rate cap hist b` relates a bucket to the times `hist` of its admissions
so far: the tokens left plus the admissions since `s` never exceed what the
bucket held at `s` and gained since, so a window `[s, t]` admits at most
`cap + rate * (t - s)`. `Ledger.take` is the step; it needs the clock not to run
behind the bucket. `Exact` says besides that some window is used up or the bucket
full, so that `Exact.admits_iff` tells the next answer from `hist` alone.
-/

namespace Lib.TokenBucket

structure Bucket (K : Type) where
  level : K
  stamp : K

section Counts

variable {K : Type} [LinearOrder K]

/-- The number of times in `hist` that are at or after `s`. -/
def countFrom (s : K) (hist : List K) : Nat := hist.countP fun x => decide (s ≤ x)

/-- The number of times in `hist` that lie in `[s, t]`. -/
def countIn (s t : K) (hist : List K) : Nat := hist.countP fun x => decide (s ≤ x ∧ x ≤ t)

theorem countIn_le_countFrom (s t : K) (hist : List K) : countIn s t hist ≤ countFrom s hist :=
  List.countP_mono_left fun x _ h => by
    simp only [decide_eq_true_eq] at h ⊢; exact h.1

/-- Nothing recorded lies after `s`. -/
theorem countFrom_eq_zero {s : K} {hist : List K} (h : ∀ x ∈ hist, x < s) : countFrom s hist = 0 :=
  List.countP_eq_zero.mpr fun x hx => by simpa using h x hx

theorem countFrom_cons (s x : K) (hist : List K) :
    countFrom s (x :: hist) = countFrom s hist + if s ≤ x then 1 else 0 := by
  simp [countFrom, List.countP_cons]

theorem countIn_cons (s t x : K) (hist : List K) :
    countIn s t (x :: hist) = countIn s t hist + if s ≤ x ∧ x ≤ t then 1 else 0 := by
  simp [countIn, List.countP_cons]

/-- Up to a time that nothing recorded lies after. -/
theorem countIn_eq_countFrom {s t : K} {hist : List K} (h : ∀ x ∈ hist, x ≤ t) :
    countIn s t hist = countFrom s hist :=
  List.countP_congr fun x hx => by simp [h x hx]

end Counts

variable {K : Type} [Field K] [LinearOrder K]

/-- The tokens at `now`: the old ones and those gained since, at most `cap`. -/
def Bucket.refill (rate cap : K) (b : Bucket K) (now : K) : K :=
  min (b.level + (now - b.stamp) * rate) cap

/-- Refill to `now` and spend a token if there is one. -/
def Bucket.take (rate cap : K) (b : Bucket K) (now : K) : Bucket K × Bool :=
  if 1 ≤ b.refill rate cap now then (⟨b.refill rate cap now - 1, now⟩, true)
  else (⟨b.refill rate cap now, now⟩, false)

theorem Bucket.take_snd (rate cap : K) (b : Bucket K) (now : K) :
    (b.take rate cap now).2 = true ↔ 1 ≤ b.refill rate cap now := by
  unfold Bucket.take
  split
  · rename_i hone; exact iff_of_true rfl hone
  · rename_i hone; exact iff_of_false Bool.false_ne_true hone

/-- The admissions `hist` fit the bucket `b`. -/
structure Ledger (rate cap : K) (hist : List K) (b : Bucket K) : Prop where
  nonneg : 0 ≤ b.level
  past : ∀ x ∈ hist, x ≤ b.stamp
  since : ∀ s, s ≤ b.stamp → (countFrom s hist : K) + b.level ≤ cap + rate * (b.stamp - s)
  window : ∀ s t, s ≤ t → (countIn s t hist : K) ≤ cap + rate * (t - s)

variable [IsStrictOrderedRing K] {rate cap : K} {hist : List K} {b : Bucket K} {now : K}

/-- A token gained since the last call is there. -/
theorem Bucket.one_le_refill (hlevel : 0 ≤ b.level) (hcap : 1 ≤ cap) (hgain : 1 ≤ (now - b.stamp) * rate) :
    1 ≤ b.refill rate cap now :=
  le_min (hgain.trans (le_add_of_nonneg_left hlevel)) hcap

/-- A full bucket with nothing admitted. -/
theorem Ledger.full (hrate : 0 ≤ rate) (hcap : 0 ≤ cap) (now : K) :
    Ledger rate cap [] ⟨cap, now⟩ where
  nonneg := hcap
  past := by simp
  since s hs := by
    have := mul_nonneg hrate (sub_nonneg.mpr hs)
    simp only [countFrom, List.countP_nil, Nat.cast_zero]
    linarith
  window s t hst := by
    have := mul_nonneg hrate (sub_nonneg.mpr hst)
    simp only [countIn, List.countP_nil, Nat.cast_zero]
    linarith

/-- Refilling keeps the ledger. -/
theorem Ledger.refill (h : Ledger rate cap hist b) (hrate : 0 ≤ rate) (hcap : 0 ≤ cap)
    (hnow : b.stamp ≤ now) : Ledger rate cap hist ⟨b.refill rate cap now, now⟩ where
  nonneg := by
    have := mul_nonneg (sub_nonneg.mpr hnow) hrate
    exact le_min (add_nonneg h.nonneg this) hcap
  past x hx := (h.past x hx).trans hnow
  since s hs := by
    rcases le_or_gt s b.stamp with hb | hb
    · have h1 := h.since s hb
      have h2 : b.refill rate cap now ≤ b.level + (now - b.stamp) * rate := min_le_left ..
      have h3 : rate * (now - s) = rate * (b.stamp - s) + (now - b.stamp) * rate := by ring
      simp only
      linarith
    · -- everything was admitted before `s`, and the bucket never holds more than `cap`
      have h1 : b.refill rate cap now ≤ cap := min_le_right ..
      have h2 := mul_nonneg hrate (sub_nonneg.mpr hs)
      rw [countFrom_eq_zero fun x hx => (h.past x hx).trans_lt hb]
      simp only [Nat.cast_zero]
      linarith
  window := h.window

/-- Spending a token and recording the admission keeps the ledger. -/
theorem Ledger.spend (h : Ledger rate cap hist b) (hrate : 0 ≤ rate) (hone : 1 ≤ b.level) :
    Ledger rate cap (b.stamp :: hist) ⟨b.level - 1, b.stamp⟩ where
  nonneg := sub_nonneg.mpr hone
  past x hx := by
    rcases List.mem_cons.mp hx with rfl | hx
    · exact le_rfl
    · exact h.past x hx
  since s hs := by
    have := h.since s hs
    rw [countFrom_cons, if_pos hs]
    push_cast
    linarith
  window s t hst := by
    rw [countIn_cons]
    split
    · rename_i hin
      -- the new admission is the latest, so the window holds all of `[s, b.stamp]`
      have h1 := h.since s hin.1
      have h2 : (countIn s t hist : K) ≤ countFrom s hist :=
        Nat.cast_le.mpr (countIn_le_countFrom s t hist)
      have h3 : rate * (b.stamp - s) ≤ rate * (t - s) :=
        mul_le_mul_of_nonneg_left (by linarith [hin.2]) hrate
      push_cast
      linarith
    · simpa using h.window s t hst

/-- **One call.** A call whose clock does not run behind the bucket keeps the
ledger, its own admission added. -/
theorem Ledger.take (h : Ledger rate cap hist b) (hrate : 0 ≤ rate) (hcap : 0 ≤ cap)
    (hnow : b.stamp ≤ now) :
    Ledger rate cap (if (b.take rate cap now).2 then now :: hist else hist)
      (b.take rate cap now).1 := by
  have hr := h.refill hrate hcap hnow
  unfold Bucket.take
  split
  · rename_i hone; exact hr.spend hrate hone
  · exact hr

/-! ## The exact law -/

/-- The bucket holds what the admissions `hist` leave it, no less. -/
structure Exact (rate cap : K) (hist : List K) (b : Bucket K) : Prop extends Ledger rate cap hist b where
  tight : b.level = cap ∨ ∃ s ∈ hist, (countFrom s hist : K) + b.level = cap + rate * (b.stamp - s)

theorem Exact.full (hrate : 0 ≤ rate) (hcap : 0 ≤ cap) (now : K) : Exact rate cap [] ⟨cap, now⟩ :=
  ⟨.full hrate hcap now, .inl rfl⟩

/-- Refilling leaves the bucket full or the same window used up. -/
theorem Exact.refill (h : Exact rate cap hist b) (hrate : 0 ≤ rate) (hcap : 0 ≤ cap)
    (hnow : b.stamp ≤ now) : Exact rate cap hist ⟨b.refill rate cap now, now⟩ := by
  refine ⟨h.toLedger.refill hrate hcap hnow, ?_⟩
  have hgain := mul_nonneg (sub_nonneg.mpr hnow) hrate
  rcases le_total cap (b.level + (now - b.stamp) * rate) with hfull | hnot
  · exact .inl (min_eq_right hfull)
  · have hlevel : b.refill rate cap now = b.level + (now - b.stamp) * rate := min_eq_left hnot
    rcases h.tight with htop | ⟨s, hs, hused⟩
    · left
      show b.refill rate cap now = cap
      linarith
    · right
      refine ⟨s, hs, ?_⟩
      have hsplit : rate * (now - s) = rate * (b.stamp - s) + (now - b.stamp) * rate := by ring
      simp only [hlevel]
      linarith

/-- Spending the token of a full bucket uses up the window that begins now. -/
theorem Exact.spend (h : Exact rate cap hist b) (hrate : 0 ≤ rate) (hone : 1 ≤ b.level) :
    Exact rate cap (b.stamp :: hist) ⟨b.level - 1, b.stamp⟩ := by
  refine ⟨h.toLedger.spend hrate hone, .inr ?_⟩
  rcases h.tight with htop | ⟨s, hs, hused⟩
  · have hnone : countFrom b.stamp hist = 0 := by
      have hsince := h.since b.stamp le_rfl
      have : (countFrom b.stamp hist : K) ≤ 0 := by
        rw [sub_self, mul_zero] at hsince
        linarith
      exact_mod_cast le_antisymm this (Nat.cast_nonneg _)
    refine ⟨b.stamp, List.mem_cons_self, ?_⟩
    rw [countFrom_cons, if_pos le_rfl, hnone, htop]
    simp
  · refine ⟨s, List.mem_cons_of_mem _ hs, ?_⟩
    rw [countFrom_cons, if_pos (h.past s hs)]
    push_cast
    linarith

theorem Exact.take (h : Exact rate cap hist b) (hrate : 0 ≤ rate) (hcap : 0 ≤ cap)
    (hnow : b.stamp ≤ now) :
    Exact rate cap (if (b.take rate cap now).2 then now :: hist else hist) (b.take rate cap now).1 := by
  have hr := h.refill hrate hcap hnow
  unfold Bucket.take
  split
  · rename_i hone; exact hr.spend hrate hone
  · exact hr

/-- **The sliding-window law.** A call is admitted exactly when a token fits the
bucket and no window from an earlier admission to the call is used up. -/
theorem Exact.admits_iff (h : Exact rate cap hist b) (hrate : 0 ≤ rate) (hcap : 0 ≤ cap)
    (hnow : b.stamp ≤ now) :
    (b.take rate cap now).2 = true ↔
      1 ≤ cap ∧ ∀ s ∈ hist, (countIn s now hist : K) + 1 ≤ cap + rate * (now - s) := by
  have hr := h.refill hrate hcap hnow
  have hcount (s : K) : countIn s now hist = countFrom s hist := countIn_eq_countFrom hr.past
  simp only [Bucket.take_snd, hcount]
  constructor
  · intro hone
    refine ⟨hone.trans (min_le_right _ _), fun s hs => ?_⟩
    have hsince := hr.since s (hr.past s hs)
    simp only at hsince
    linarith
  · rintro ⟨hfit, hroom⟩
    rcases hr.tight with htop | ⟨s, hs, hused⟩
    · exact hfit.trans (ge_of_eq htop)
    · have := hroom s hs
      simp only at hused
      linarith

end Lib.TokenBucket
