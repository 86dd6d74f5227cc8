import Mathlib.Data.List.Infix

/-!
# Walking in a tree

A node of a tree is the list of names that lead to it from the top. A walk goes down by
a name or up by one level, and it fails above the top. What a walk does anywhere is what
is left of it when each step up cancels the step down before: some levels up and some
names down (`climb`). `walk_eq` says where it ends, `climb_eq_zero_iff` when it never
goes above the node it starts from.
-/

namespace Lib.TreeWalk

variable {α : Type}

inductive Move (α : Type) where
  | down (name : α)
  | up
  deriving DecidableEq, Repr

def Move.isDown : Move α → Bool
  | .down _ => true
  | .up => false

def Move.isUp (m : Move α) : Bool := !m.isDown

/-- The node where a walk ends that starts from `here`. -/
def walk : List α → List (Move α) → Option (List α)
  | here, [] => some here
  | here, .down a :: ms => walk (here ++ [a]) ms
  | here, .up :: ms => if here = [] then none else walk here.dropLast ms

/-- The levels up and the names down that a walk comes to, after `k` levels up and the
names `names` down. -/
def climbFrom : Nat → List α → List (Move α) → Nat × List α
  | k, names, [] => (k, names)
  | k, names, .down a :: ms => climbFrom k (names ++ [a]) ms
  | k, [], .up :: ms => climbFrom (k + 1) [] ms
  | k, a :: names, .up :: ms => climbFrom k (a :: names).dropLast ms

def climb (ms : List (Move α)) : Nat × List α := climbFrom 0 [] ms

variable {here names : List α} {ms : List (Move α)} {k : Nat}

/-- The levels up are never taken back. -/
theorem le_climbFrom (k : Nat) (names : List α) (ms : List (Move α)) : k ≤ (climbFrom k names ms).1 := by
  induction ms generalizing k names with
  | nil => exact Nat.le_refl k
  | cons m ms ih =>
    cases m with
    | down a => exact ih k (names ++ [a])
    | up =>
      cases names with
      | nil => exact Nat.le_of_succ_le (ih (k + 1) [])
      | cons a names => exact ih k (a :: names).dropLast

theorem walk_climbFrom (h : k ≤ here.length) :
    walk (here.take (here.length - k) ++ names) ms =
      if (climbFrom k names ms).1 ≤ here.length then
        some (here.take (here.length - (climbFrom k names ms).1) ++ (climbFrom k names ms).2)
      else none := by
  induction ms generalizing k names with
  | nil => simp [walk, climbFrom, h]
  | cons m ms ih =>
    cases m with
    | down a =>
      rw [walk, List.append_assoc]
      exact ih h
    | up =>
      cases names with
      | cons a names =>
        rw [walk, if_neg (by simp), List.dropLast_append_of_ne_nil (by simp)]
        exact ih h
      | nil =>
        rw [walk, climbFrom, List.append_nil]
        by_cases hk : k = here.length
        · -- from the top there is no way up
          have hup := le_climbFrom (k + 1) [] ms
          rw [if_pos (by simp [hk]), if_neg (by omega)]
        · have hne : here.take (here.length - k) ≠ [] := by
            rw [Ne, List.take_eq_nil_iff]
            rintro (hz | rfl)
            · omega
            · exact hk (Nat.le_zero.mp h)
          have hdrop : (here.take (here.length - k)).dropLast = here.take (here.length - (k + 1)) ++ [] := by
            rw [List.append_nil, List.dropLast_eq_take, List.length_take, List.take_take]
            congr 1
            omega
          rw [if_neg hne, hdrop]
          exact ih (by omega)

/-- **Where a walk ends.** It goes up to a node above and from there down; it fails if
there are not as many levels above. -/
theorem walk_eq (here : List α) (ms : List (Move α)) :
    walk here ms =
      if (climb ms).1 ≤ here.length then some (here.take (here.length - (climb ms).1) ++ (climb ms).2)
      else none := by
  have h := @walk_climbFrom _ here [] ms 0 (Nat.zero_le _)
  rwa [Nat.sub_zero, List.take_length, List.append_nil] at h

theorem climbFrom_eq_iff : (climbFrom k names ms).1 = k ↔
    ∀ pre, pre <+: ms → pre.countP Move.isUp ≤ names.length + pre.countP Move.isDown := by
  induction ms generalizing names with
  | nil => simp [climbFrom]
  | cons m ms ih =>
    have hcons : (∀ pre, pre <+: m :: ms → pre.countP Move.isUp ≤ names.length + pre.countP Move.isDown) ↔
        ∀ pre, pre <+: ms → (m :: pre).countP Move.isUp ≤ names.length + (m :: pre).countP Move.isDown := by
      constructor
      · exact fun h pre hpre => h (m :: pre) (List.cons_prefix_cons.mpr ⟨rfl, hpre⟩)
      · intro h pre hpre
        cases pre with
        | nil => simp
        | cons x pre =>
          obtain ⟨rfl, hrest⟩ := List.cons_prefix_cons.mp hpre
          exact h pre hrest
    rw [hcons]
    cases m with
    | down a =>
      rw [climbFrom, ih]
      refine forall₂_congr fun pre _ => ?_
      simp only [List.length_append, List.length_singleton, List.countP_cons, Move.isUp, Move.isDown]
      simp only [Bool.not_true, Bool.false_eq_true, if_false, if_true]
      omega
    | up =>
      cases names with
      | nil =>
        have hle := le_climbFrom (k + 1) [] ms
        refine iff_of_false ?_ fun h => ?_
        · rw [climbFrom]
          omega
        · have := h [] List.nil_prefix
          simp [Move.isUp, Move.isDown] at this
      | cons a names =>
        rw [climbFrom, ih]
        refine forall₂_congr fun pre _ => ?_
        simp only [List.length_dropLast, List.length_cons, List.countP_cons, Move.isUp, Move.isDown]
        simp only [Bool.not_false, Bool.false_eq_true, if_false, if_true]
        omega

/-- **A walk stays below its start** when no part of it from the start on has more steps
up than down. -/
theorem climb_eq_zero_iff : (climb ms).1 = 0 ↔
    ∀ pre, pre <+: ms → pre.countP Move.isUp ≤ pre.countP Move.isDown := by
  have h := @climbFrom_eq_iff _ [] ms 0
  simp only [List.length_nil, Nat.zero_add] at h
  exact h

end Lib.TreeWalk
