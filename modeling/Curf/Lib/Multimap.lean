import Mathlib.Data.Finset.Card
import Mathlib.Data.Finset.Dedup

/-!
# Multimaps as lists of pairs

A key of a multimap may have several values. `put` replaces all values of its key
by one; after `putAll` a key that was put has the value put last (`mem_putAll`).
A map that holds at most `cap` keys refuses to `put` once it is full, whether the
key is new or not: `putAllWithin_eq` says which lists it takes.
-/

namespace Lib.Multimap

variable {κ ν : Type} [DecidableEq κ] {m ps : List (κ × ν)} {k a : κ} {v b : ν} {cap : Nat}

def keys (m : List (κ × ν)) : Finset κ := (m.map (·.1)).toFinset

/-- `v` is the one value of `k`. -/
def put (m : List (κ × ν)) (k : κ) (v : ν) : List (κ × ν) := m.filter (fun p => p.1 ≠ k) ++ [(k, v)]

/-- Put the pairs one after another. -/
def putAll (m ps : List (κ × ν)) : List (κ × ν) := ps.foldl (fun m p => put m p.1 p.2) m

/-- The value of the last pair with the key `k`. -/
def last (ps : List (κ × ν)) (k : κ) : Option ν := ps.reverse.lookup k

/-- All values of `k`, in order. -/
def values (m : List (κ × ν)) (k : κ) : List ν := (m.filter fun p => p.1 = k).map (·.2)

/-- `put`, if there is room for another key. -/
def putWithin (cap : Nat) (m : List (κ × ν)) (k : κ) (v : ν) : Option (List (κ × ν)) :=
  if (keys m).card < cap then some (put m k v) else none

def putAllWithin (cap : Nat) : List (κ × ν) → List (κ × ν) → Option (List (κ × ν))
  | m, [] => some m
  | m, p :: ps => (putWithin cap m p.1 p.2).bind (putAllWithin cap · ps)

/-- There is room before each of the pairs, and so before the last. -/
def Fits (cap : Nat) (m ps : List (κ × ν)) : Prop := ps = [] ∨ (keys m ∪ keys ps.dropLast).card < cap

instance : Decidable (Fits cap m ps) := inferInstanceAs (Decidable (_ ∨ _))

theorem mem_put : (a, b) ∈ put m k v ↔ (a = k ∧ b = v) ∨ (a ≠ k ∧ (a, b) ∈ m) := by
  simp only [put, List.mem_append, List.mem_filter, decide_eq_true_eq, List.mem_singleton, Prod.mk.injEq]
  constructor
  · rintro (⟨h, hne⟩ | h)
    · exact .inr ⟨hne, h⟩
    · exact .inl h
  · rintro (h | ⟨hne, h⟩)
    · exact .inr h
    · exact .inl ⟨h, hne⟩

theorem mem_keys : k ∈ keys m ↔ ∃ v, (k, v) ∈ m := by
  simp [keys]

theorem keys_cons (p : κ × ν) (m : List (κ × ν)) : keys (p :: m) = insert p.1 (keys m) := by
  simp [keys]

theorem keys_put (m : List (κ × ν)) (k : κ) (v : ν) : keys (put m k v) = insert k (keys m) := by
  ext a
  simp only [Finset.mem_insert, mem_keys, mem_put]
  constructor
  · rintro ⟨b, ⟨rfl, -⟩ | ⟨-, h⟩⟩
    · exact .inl rfl
    · exact .inr ⟨b, h⟩
  · rintro (rfl | ⟨b, h⟩)
    · exact ⟨v, .inl ⟨rfl, rfl⟩⟩
    · by_cases he : a = k
      · exact ⟨v, .inl ⟨he, rfl⟩⟩
      · exact ⟨b, .inr ⟨he, h⟩⟩

theorem last_cons (p : κ × ν) (ps : List (κ × ν)) (a : κ) :
    last (p :: ps) a = (last ps a).or (if a = p.1 then some p.2 else none) := by
  unfold last
  rw [List.reverse_cons, List.lookup_append, List.lookup_cons]
  by_cases h : a = p.1
  · simp [h]
  · rw [beq_false_of_ne h, if_neg h]
    simp

/-- A key that occurs has a last value. -/
theorem last_ne_none (h : (a, b) ∈ ps) : last ps a ≠ none := by
  unfold last
  rw [Ne, List.lookup_eq_none_iff]
  intro hnone
  have := hnone (a, b) (List.mem_reverse.mpr h)
  simp at this

theorem values_put (m : List (κ × ν)) (k : κ) (v : ν) (a : κ) :
    values (put m k v) a = if a = k then [v] else values m a := by
  unfold values put
  rw [List.filter_append, List.filter_filter, List.map_append]
  by_cases h : a = k
  · subst h
    have hnone : m.filter (fun p => decide (p.1 = a) && decide (p.1 ≠ a)) = [] := by
      rw [List.filter_eq_nil_iff]
      intro p _
      simp
    rw [hnone, if_pos rfl]
    simp
  · have hsame : m.filter (fun p => decide (p.1 = a) && decide (p.1 ≠ k)) = m.filter fun p => p.1 = a := by
      refine List.filter_congr fun p _ => ?_
      by_cases hp : p.1 = a
      · simp [hp, h]
      · simp [hp]
    rw [hsame, if_neg h]
    simp [Ne.symm h]

/-- After putting pairs a key has its last value alone, or the values it had before. -/
theorem values_putAll (m ps : List (κ × ν)) (a : κ) :
    values (putAll m ps) a = match last ps a with
      | some v => [v]
      | none => values m a := by
  induction ps generalizing m with
  | nil => rfl
  | cons p ps ih =>
    show values (putAll (put m p.1 p.2) ps) a = _
    rw [ih, last_cons]
    cases last ps a with
    | some v => rfl
    | none =>
      rw [values_put]
      by_cases h : a = p.1
      · simp [h]
      · simp [h]

/-- Other keys are left alone. -/
theorem values_putAll_other (h : ∀ p ∈ ps, p.1 ≠ k) : values (putAll m ps) k = values m k := by
  have hlast : last ps k = none := by
    rw [last, List.lookup_eq_none_iff]
    intro p hp
    simpa using (h p (List.mem_reverse.mp hp)).symm
  rw [values_putAll, hlast]

/-- **After putting pairs** a key has its last value, or what it had before. -/
theorem mem_putAll : (a, b) ∈ putAll m ps ↔ last ps a = some b ∨ (last ps a = none ∧ (a, b) ∈ m) := by
  induction ps generalizing m with
  | nil => simp [putAll, last]
  | cons p ps ih =>
    show (a, b) ∈ putAll (put m p.1 p.2) ps ↔ _
    rw [ih, last_cons, mem_put]
    cases last ps a with
    | some c => simp
    | none =>
      by_cases h : a = p.1
      · simp [h, eq_comm]
      · simp [h]

/-- A pair that is put stays if it is the last of its key. -/
theorem mem_putAll_of_mem (h : (a, b) ∈ ps) : (a, b) ∈ putAll m ps ↔ last ps a = some b := by
  rw [mem_putAll]
  exact or_iff_left fun hnone => last_ne_none h hnone.1

/-- Room before the last pair is room before the first, and for the others after it. -/
theorem fits_cons {p : κ × ν} :
    Fits cap m (p :: ps) ↔ (keys m).card < cap ∧ Fits cap (put m p.1 p.2) ps := by
  unfold Fits
  cases ps with
  | nil => simp [keys]
  | cons q ps =>
    have hdrop : (p :: q :: ps).dropLast = p :: (q :: ps).dropLast := rfl
    have hkeys : keys m ∪ keys (p :: (q :: ps).dropLast) = keys (put m p.1 p.2) ∪ keys (q :: ps).dropLast := by
      rw [keys_cons, keys_put, Finset.union_insert, Finset.insert_union]
    simp only [List.cons_ne_nil, false_or, hdrop, hkeys]
    refine ⟨fun h => ⟨?_, h⟩, fun h => h.2⟩
    refine Nat.lt_of_le_of_lt (Finset.card_le_card ?_) h
    rw [keys_put]
    exact (Finset.subset_insert _ _).trans Finset.subset_union_left

/-- **What a bounded map takes.** -/
theorem putAllWithin_eq (cap : Nat) (m ps : List (κ × ν)) :
    putAllWithin cap m ps = if Fits cap m ps then some (putAll m ps) else none := by
  induction ps generalizing m with
  | nil => rw [if_pos (.inl rfl)]; rfl
  | cons p ps ih =>
    simp only [putAllWithin, putWithin, fits_cons]
    by_cases hroom : (keys m).card < cap
    · simp only [hroom, true_and, if_true, Option.bind_some]
      exact ih (put m p.1 p.2)
    · simp [hroom]

end Lib.Multimap
