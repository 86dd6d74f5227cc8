import Curf.Lib.Tally

/-!
# Choosing the least by old readings

Choosers look for the least loaded of several places. Each reads the loads one by one,
keeps the place of the least reading so far as its candidate, and in the end adds one
to the load of its candidate, which others may have added to since it was read.

A chooser that has also read the load of a fixed place keeps a candidate read no higher.
Let `top` bound that load from above and never fall. By `Close.le` no load then gets
further above `top` than there are choosers under way at once.
-/

namespace Lib

variable {ι τ : Type} [DecidableEq ι] {candidate : τ → Option (ι × Nat)} {k top top' : Nat}
  {load load' : ι → Nat} {xs : List τ} {c : Nat} {x x' : τ} {i : ι} {v t : Nat}

/-- Chooser `x` goes for the place `i` on a reading of `t` at most. -/
def Means (candidate : τ → Option (ι × Nat)) (i : ι) (t : Nat) (x : τ) : Bool :=
  (candidate x).any fun r => r.1 = i && r.2 ≤ t

theorem means_of_candidate (h : candidate x = some (i, v)) {j : ι} :
    Means candidate j t x = true ↔ i = j ∧ v ≤ t := by
  simp [Means, h]

theorem not_means (h : candidate x = none) : Means candidate i t x = false := by
  simp [Means, h]

/-- What a place has above a level not below `top`, and what it will get from the choosers
that go for it on a reading up to that level, is `k` at most. -/
def Close (candidate : τ → Option (ι × Nat)) (k : Nat) (load : ι → Nat) (top : Nat) (xs : List τ) : Prop :=
  ∀ i t, top ≤ t → load i - t + xs.countP (Means candidate i t) ≤ k

theorem Close.le (h : Close candidate k load top xs) (i : ι) : load i ≤ top + k := by
  have := h i top (Nat.le_refl _)
  omega

/-- Loads may fall and `top` may rise. -/
theorem Close.mono (h : Close candidate k load top xs) (hload : ∀ i, load' i ≤ load i) (htop : top ≤ top') :
    Close candidate k load' top' xs := by
  intro i t ht
  have := h i t (Nat.le_trans htop ht)
  have := hload i
  omega

/-- A chooser sets out. -/
theorem Close.append (h : Close candidate k load top xs) (hx : candidate x = none) :
    Close candidate k load top (xs ++ [x]) := by
  intro i t ht
  rw [List.countP_append, List.countP_singleton, not_means hx]
  exact h i t ht

/-- A chooser goes on with the candidate it has, or with none. -/
theorem Close.keep (h : Close candidate k load top xs) (hc : xs[c]? = some x)
    (hx : candidate x' = candidate x ∨ candidate x' = none) : Close candidate k load top (xs.set c x') := by
  intro i t ht
  have hcount := countP_set_add (p := Means candidate i t) hc x'
  have hle : (if Means candidate i t x' then 1 else 0) ≤ if Means candidate i t x then 1 else 0 := by
    rcases hx with hx | hx
    · have hmeans : Means candidate i t x' = Means candidate i t x := by rw [Means, Means, hx]
      exact Nat.le_of_eq (by rw [hmeans])
    · rw [not_means hx]; exact Nat.zero_le _
  have := h i t ht
  omega

/-- A chooser takes the place it has just read for its candidate. -/
theorem Close.read (h : Close candidate k load top xs) (hc : xs[c]? = some x)
    (hx : candidate x' = some (i, load i)) (hk : (xs.set c x').countP (candidate · |>.isSome) ≤ k) :
    Close candidate k load top (xs.set c x') := by
  intro i' t ht
  by_cases hmeans : i = i' ∧ load i ≤ t
  · obtain ⟨rfl, hle⟩ := hmeans
    have hsome : (xs.set c x').countP (Means candidate i t) ≤ (xs.set c x').countP (candidate · |>.isSome) := by
      refine List.countP_mono_left fun y _ hy => ?_
      unfold Means at hy
      cases hcand : candidate y with
      | none => rw [hcand] at hy; cases hy
      | some r => rfl
    omega
  · have hcount := countP_set_add (p := Means candidate i' t) hc x'
    rw [if_neg (fun hm : Means candidate i' t x' = true => hmeans ((means_of_candidate hx).mp hm))] at hcount
    have := h i' t ht
    omega

/-- A chooser adds to the load of its candidate, having read no more than `top`. -/
theorem Close.put (h : Close candidate k load top xs) (hc : xs[c]? = some x)
    (hx : candidate x = some (i, v)) (hx' : candidate x' = none) (hv : v ≤ top)
    (hload : ∀ j, load' j = load j + if i = j then 1 else 0) (htop : top ≤ top') :
    Close candidate k load' top' (xs.set c x') := by
  intro i' t ht
  have ht' : top ≤ t := Nat.le_trans htop ht
  have hold := h i' t ht'
  have hcount := countP_set_add (p := Means candidate i' t) hc x'
  have hl := hload i'
  rw [not_means hx'] at hcount
  by_cases hii : i = i'
  · subst hii
    have hm : Means candidate i t x = true := (means_of_candidate hx).mpr ⟨rfl, Nat.le_trans hv ht'⟩
    rw [if_pos hm] at hcount
    rw [if_pos rfl] at hl
    simp only [Bool.false_eq_true, if_false] at hcount
    omega
  · rw [if_neg hii] at hl
    simp only [Bool.false_eq_true, if_false] at hcount
    omega

end Lib
