import Mathlib.Algebra.GroupWithZero.Nat

/-!
# Counting the members of a pool

A pool of live things is a list without order. Taking one out, or putting another
in its place, changes the number of those satisfying `p` by what the one and the
other count for. Where each counts for what is left of it, a smaller rest makes a
smaller sum.
-/

namespace Lib

variable {α : Type} [DecidableEq α] {p : α → Bool} {a : α} {l : List α}

/-- Taking `a` out. -/
theorem countP_erase_add (h : a ∈ l) : (l.erase a).countP p + (if p a then 1 else 0) = l.countP p := by
  rw [(List.perm_cons_erase h).countP_eq p, List.countP_cons]

/-- Putting `b` in the place of `a`. -/
theorem countP_replace (h : a ∈ l) (b : α) :
    (b :: l.erase a).countP p + (if p a then 1 else 0) = l.countP p + (if p b then 1 else 0) := by
  have := countP_erase_add (p := p) h
  rw [List.countP_cons]
  omega

/-- A replacement that counts the same changes no count. -/
theorem countP_replace_same (h : a ∈ l) {b : α} (hp : p b = p a) :
    (b :: l.erase a).countP p = l.countP p := by
  have := countP_replace (p := p) h b
  rw [hp] at this
  omega

/-- Putting `b` in the place of the member in position `i`. -/
theorem countP_set_add {α : Type} {p : α → Bool} {l : List α} {i : Nat} {a : α} (hi : l[i]? = some a) (b : α) :
    (l.set i b).countP p + (if p a then 1 else 0) = l.countP p + (if p b then 1 else 0) := by
  induction l generalizing i with
  | nil => cases hi
  | cons x l ih =>
    cases i with
    | zero =>
      cases hi
      rw [List.set_cons_zero, List.countP_cons, List.countP_cons]
      omega
    | succ i =>
      have := ih hi
      rw [List.set_cons_succ, List.countP_cons, List.countP_cons]
      omega

/-- Counting something else of `a` alone. -/
theorem countP_update {l : List α} (hl : l.Nodup) (ha : a ∈ l) {q : α → Bool} (hq : ∀ b, b ≠ a → q b = p b) :
    l.countP q + (if p a then 1 else 0) = l.countP p + (if q a then 1 else 0) := by
  have hrest : (l.erase a).countP q = (l.erase a).countP p := by
    refine List.countP_congr fun b hb => ?_
    have hne : b ≠ a := fun h => hl.not_mem_erase (h ▸ hb)
    rw [hq b hne]
  have hp' := countP_erase_add (p := p) ha
  have hq' := countP_erase_add (p := q) ha
  omega

/-- Less left of one is less left in all. -/
theorem sum_map_set_lt {α : Type} {left : α → Nat} {l : List α} {i : Nat} {a b : α} (hi : l[i]? = some a)
    (hless : left b < left a) : ((l.set i b).map left).sum < (l.map left).sum := by
  induction l generalizing i with
  | nil => cases hi
  | cons x l ih =>
    cases i with
    | zero =>
      cases hi
      exact Nat.add_lt_add_right hless _
    | succ i => exact Nat.add_lt_add_left (ih hi) _

end Lib
