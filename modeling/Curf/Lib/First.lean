import Mathlib.Data.List.Find
import Mathlib.Data.List.Nodup
import Mathlib.Data.List.TakeWhile
import Mathlib.Order.Lattice

/-!
# The first element of a list

`List.find?` returns the first element that satisfies a predicate; what comes
before `a` in `l` is `l.takeWhile (· ≠ a)`. Among elements with keys of their own the
first with a key is the only one. `List.minOn?` keeps the earlier of two
elements with equal keys: on a list whose elements stand in the order `R`, its
result is the least element by key first and by `R` second.
-/

namespace Lib

variable {α β : Type} [LinearOrder β] {f : α → β} {R : α → α → Prop} {l : List α} {a b : α}

section

variable [DecidableEq α]

theorem ne_of_mem_of_not_mem (h : a ∉ l) : ∀ b ∈ l, decide (b ≠ a) = true := fun _ hb =>
  decide_eq_true fun he => h (he ▸ hb)

/-- Nothing is cut off without the mark `a`. -/
theorem takeWhile_ne (h : a ∉ l) : l.takeWhile (· ≠ a) = l :=
  List.takeWhile_eq_self_iff.mpr (ne_of_mem_of_not_mem h)

theorem takeWhile_ne_append (h : a ∉ l) (t : List α) : (l ++ t).takeWhile (· ≠ a) = l ++ t.takeWhile (· ≠ a) :=
  List.takeWhile_append_of_pos (ne_of_mem_of_not_mem h)

theorem dropWhile_ne_append (h : a ∉ l) (t : List α) : (l ++ t).dropWhile (· ≠ a) = t.dropWhile (· ≠ a) :=
  List.dropWhile_append_of_pos (ne_of_mem_of_not_mem h)

/-- The first mark cuts off what stands behind it. -/
theorem takeWhile_ne_mark (h : a ∉ l) (t : List α) : (l ++ a :: t).takeWhile (· ≠ a) = l := by
  rw [takeWhile_ne_append h, List.takeWhile_cons_of_neg (by simp), List.append_nil]

theorem takeWhile_ne_cut (h : a ∉ l) {t : List α} (ht : t = [] ∨ [a] <+: t) : (l ++ t).takeWhile (· ≠ a) = l := by
  rcases ht with rfl | ⟨t, rfl⟩
  · rw [List.append_nil, takeWhile_ne h]
  · exact takeWhile_ne_mark h t

/-- A list is what stands before the first mark, and what is cut off by it. -/
theorem exists_takeWhile_ne (a : α) (l : List α) :
    ∃ t, l = l.takeWhile (· ≠ a) ++ t ∧ a ∉ l.takeWhile (· ≠ a) ∧ (t = [] ∨ [a] <+: t) := by
  by_cases hmem : a ∈ l
  · obtain ⟨xs, ys, rfl, hxs⟩ := List.eq_append_cons_of_mem hmem
    rw [takeWhile_ne_mark hxs]
    exact ⟨a :: ys, rfl, hxs, .inr ⟨ys, rfl⟩⟩
  · rw [takeWhile_ne hmem]
    exact ⟨[], (List.append_nil l).symm, hmem, .inl rfl⟩

theorem takeWhile_ne_append_of_mem (h : a ∈ l) (t : List α) :
    (l ++ t).takeWhile (· ≠ a) = l.takeWhile (· ≠ a) := by
  obtain ⟨xs, ys, rfl, hxs⟩ := List.eq_append_cons_of_mem h
  rw [List.append_assoc, List.cons_append, takeWhile_ne_mark hxs, takeWhile_ne_mark hxs]

end

/-- **The first hit** is a hit with none before it. -/
theorem find?_eq_some_iff_takeWhile [DecidableEq α] {p : α → Bool} :
    l.find? p = some a ↔ a ∈ l ∧ p a = true ∧ ∀ b ∈ l.takeWhile (· ≠ a), p b = false := by
  induction l with
  | nil => simp
  | cons x xs ih =>
    by_cases hxa : x = a
    · subst hxa
      cases hx : p x <;> simp [hx]
      intro h
      exact absurd (List.find?_some h) (by simp [hx])
    · cases hx : p x
      · simp [hx, hxa, Ne.symm hxa, ih]
      · simp [hx, hxa]

/-- The first hit stays the first when hits go, as long as it is one. -/
theorem find?_of_subset {p q : α → Bool} (hqp : ∀ b, q b = true → p b = true)
    (h : l.find? p = some a) (hq : q a = true) : l.find? q = some a := by
  induction l with
  | nil => cases h
  | cons x xs ih =>
    rw [List.find?_cons] at h ⊢
    cases hp : p x with
    | true =>
      rw [hp] at h
      obtain rfl := Option.some.inj h
      rw [hq]
    | false =>
      rw [hp] at h
      have hqx : q x = false := by
        rw [Bool.eq_false_iff] at hp ⊢
        exact fun hx => hp (hqp x hx)
      rw [hqx]
      exact ih h

section

variable {γ : Type} [DecidableEq γ] {key : α → γ} {k : γ} {l' : List α}

/-- Where no two have the same key, the first with a key is the one. -/
theorem find?_key_iff (h : (l.map key).Nodup) : l.find? (key · = k) = some a ↔ a ∈ l ∧ key a = k := by
  refine ⟨fun ha => ⟨List.mem_of_find?_eq_some ha, by simpa using List.find?_some ha⟩, ?_⟩
  rintro ⟨hmem, rfl⟩
  cases hb : l.find? (key · = key a) with
  | none => exact absurd (List.find?_eq_none.mp hb a hmem) (by simp)
  | some b =>
    have hkey : key b = key a := by simpa using List.find?_some hb
    rw [List.inj_on_of_nodup_map h (List.mem_of_find?_eq_some hb) hmem hkey]

/-- The order does not matter then. -/
theorem find?_key_perm (h : (l.map key).Nodup) (hperm : l.Perm l') :
    l.find? (key · = k) = l'.find? (key · = k) := by
  refine List.find?_eq_find?_of_perm hperm fun a ha b hb => ?_
  have hkeys : key a = key b := (of_decide_eq_true ha.2).trans (of_decide_eq_true hb.2).symm
  exact List.inj_on_of_nodup_map h ha.1 hb.1 hkeys

end

/-- `a` comes before `b`: a smaller key, or the same key and an earlier place. -/
def Earlier (f : α → β) (R : α → α → Prop) (a b : α) : Prop := f a < f b ∨ (f a = f b ∧ R a b)

theorem Earlier.asymm (hR : ∀ a b, R a b → ¬ R b a) (h : Earlier f R a b) : ¬ Earlier f R b a := by
  rcases h with h | ⟨h, hr⟩
  · rintro (h' | ⟨h', -⟩)
    · exact lt_asymm h h'
    · exact absurd h' (ne_of_gt h)
  · rintro (h' | ⟨-, h'⟩)
    · exact absurd h (ne_of_gt h')
    · exact hR _ _ hr h'

theorem Earlier.total (hR : R a b ∨ R b a) : Earlier f R a b ∨ Earlier f R b a := by
  rcases lt_trichotomy (f a) (f b) with h | h | h
  · exact .inl (.inl h)
  · rcases hR with hr | hr
    · exact .inl (.inr ⟨h, hr⟩)
    · exact .inr (.inr ⟨h.symm, hr⟩)
  · exact .inr (.inl h)

theorem minOn?_earlier (hl : l.Pairwise R) (ha : l.minOn? f = some a) (hb : b ∈ l) :
    b = a ∨ Earlier f R a b := by
  induction l generalizing a with
  | nil => cases hb
  | cons x xs ih =>
    obtain ⟨hx, hxs⟩ := List.pairwise_cons.mp hl
    rw [List.minOn?_cons, Option.some.injEq] at ha
    cases hm : xs.minOn? f with
    | none =>
      have hnil : xs = [] := by
        by_contra hne
        have := List.isSome_minOn?_iff (f := f) |>.mpr hne
        rw [hm] at this
        cases this
      subst hnil
      rw [hm] at ha
      exact .inl ((List.mem_singleton.mp hb).trans ha)
    | some m =>
      rw [hm, Option.elim_some, minOn] at ha
      split at ha
      · rename_i hle
        subst ha
        rcases List.mem_cons.mp hb with hb | hb
        · exact .inl hb
        · have hmb : f m ≤ f b := by
            rcases ih hxs hm hb with rfl | h | ⟨h, -⟩
            · exact le_refl _
            · exact le_of_lt h
            · exact le_of_eq h
          rcases lt_or_eq_of_le (le_trans hle hmb) with h | h
          · exact .inr (.inl h)
          · exact .inr (.inr ⟨h, hx b hb⟩)
      · rename_i hlt
        subst ha
        rcases List.mem_cons.mp hb with rfl | hb
        · exact .inr (.inl (not_le.mp hlt))
        · exact ih hxs hm hb

/-- With equal keys the first element is the least. -/
theorem minOn?_const {c : β} (hf : ∀ a, f a = c) (l : List α) : l.minOn? f = l.head? := by
  cases l with
  | nil => rfl
  | cons x xs =>
    rw [List.minOn?_cons, List.head?_cons]
    cases xs.minOn? f with
    | none => rfl
    | some m =>
      rw [Option.elim_some, minOn, hf, hf, if_pos (le_refl c)]

/-- **The first minimiser** is the element that comes before all others. -/
theorem minOn?_eq_some_iff (hR : ∀ a b, R a b → ¬ R b a) (hl : l.Pairwise R) :
    l.minOn? f = some a ↔ a ∈ l ∧ ∀ b ∈ l, b = a ∨ Earlier f R a b := by
  constructor
  · intro h
    exact ⟨List.minOn?_mem h, fun b hb => minOn?_earlier hl h hb⟩
  · rintro ⟨ha, hfirst⟩
    obtain ⟨m, hm⟩ := Option.isSome_iff_exists.mp (List.isSome_minOn?_of_mem (f := f) ha)
    rcases minOn?_earlier hl hm ha with rfl | h
    · exact hm
    · rcases hfirst m (List.minOn?_mem hm) with rfl | h'
      · exact hm
      · exact absurd h (h'.asymm hR)

end Lib
