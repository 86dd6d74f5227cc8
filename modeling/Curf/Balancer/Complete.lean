import Curf.Lib.Cyclic
import Curf.Balancer.Pick

/-!
# `select` misses no available backend

Each of the three strategies comes by every backend, the cursor's walk as long as
it does not wrap. So `select` returns `None` only when no backend is available,
and then it has changed none of them.
-/

namespace Curf

open Lib

/-- What `is_healthy` stands for: the circuit is closed, or its last failure is 30
seconds old. -/
def Backend.Ready (b : Backend) (now : UInt64) : Prop :=
  b.circuitOpen = false ∨ 30 ≤ now.toNat - b.lastFailure.toNat

instance (b : Backend) (now : UInt64) : Decidable (b.Ready now) :=
  inferInstanceAs (Decidable (_ ∨ _))

/-- The subtraction of `is_healthy` does not wrap when the clock is not behind. -/
theorem Backend.available_iff_ready {b : Backend} {now : UInt64} (h : b.lastFailure ≤ now) :
    b.Available now ↔ b.Ready now := by
  unfold Available Ready
  apply or_congr_right
  rw [cbResetSecs_le_iff h]
  omega

namespace LoadBalancer

variable {lb : LoadBalancer} {ip : Option IpAddr} {now : UInt64} {i n : Nat}

/-- The cursor draws the readings of a 64-bit counter. -/
theorem cursorVisits_eq_readings (n : Nat) (c : UInt64) (k : Nat) :
    cursorVisits n c k = Cyclic.readings (2 ^ 64) n c.toNat k := by
  induction k generalizing c with
  | zero => rfl
  | succ k ih =>
    have hc : (c + 1).toNat = (c.toNat + 1) % 2 ^ 64 := UInt64.toNat_add c 1
    rw [cursorVisits, ih, Cyclic.readings, Cyclic.readings, List.range_succ_eq_map, List.map_cons, List.map_map,
      Nat.add_zero, Nat.mod_eq_of_lt c.toNat_lt]
    refine congrArg _ (List.map_congr_left fun d _ => ?_)
    show ((c + 1).toNat + d) % 2 ^ 64 % n = (c.toNat + (d + 1)) % 2 ^ 64 % n
    rw [hc, Nat.mod_add_mod, Nat.add_assoc, Nat.add_comm 1 d]

/-- Before it wraps the cursor draws consecutive numbers. -/
theorem cursorVisits_eq (n : Nat) {c : UInt64} {k : Nat} (h : c.toNat + k ≤ 2 ^ 64) :
    cursorVisits n c k = (List.range k).map fun d => (c.toNat + d) % n := by
  rw [cursorVisits_eq_readings]
  refine List.map_congr_left fun d hd => ?_
  have hd := List.mem_range.mp hd
  rw [Nat.mod_eq_of_lt (show c.toNat + d < 2 ^ 64 by omega)]

/-- A walk of one round comes by every position. -/
theorem mem_round (c : Nat) (hi : i < n) : i ∈ (List.range n).map fun d => (c + d) % n := by
  obtain ⟨d, hd, he⟩ := Cyclic.exists_add_mod_eq c hi
  exact List.mem_map.mpr ⟨d, List.mem_range.mpr hd, he⟩

/-- Every strategy comes by every backend. -/
theorem mem_visits (hcursor : lb.cursor.toNat + lb.backends.length < 2 ^ 64)
    (hi : i < lb.backends.length) : i ∈ lb.visits ip := by
  unfold visits
  split
  · rw [cursorVisits_eq _ hcursor.le]
    exact mem_round _ hi
  · exact List.mem_range.mpr hi
  · exact mem_round _ hi

/-- **No available backend is missed.** -/
theorem pick_eq_none_iff (hcursor : lb.cursor.toNat + lb.backends.length < 2 ^ 64) :
    lb.pick ip now = none ↔ ∀ i, ¬ AvailableAt lb.backends now i := by
  constructor
  · intro hp i ha
    have hi : i ∈ lb.visits ip := mem_visits hcursor ha.lt
    unfold pick at hp
    split at hp
    · exact absurd (List.find?_eq_none.mp hp i hi) (by simpa using ha)
    · exact absurd (List.find?_eq_none.mp hp i hi) (by simpa using ha)
    · have hmem : i ∈ (lb.visits ip).filter (AvailableAt lb.backends now) :=
        List.mem_filter.mpr ⟨hi, decide_eq_true ha⟩
      have hsome := List.isSome_minOn?_of_mem (f := activeAt lb.backends) hmem
      rw [hp] at hsome
      cases hsome
  · intro h
    cases hp : lb.pick ip now with
    | none => rfl
    | some i => exact absurd (pick_available hp) (h i)

/-- A call that returns nothing has found every backend unavailable, and the query
on an unavailable backend changes nothing. -/
theorem select_backends_of_pick_none (hp : lb.pick ip now = none)
    (h : ∀ i, ¬ AvailableAt lb.backends now i) : (lb.select ip now).2.backends = lb.backends := by
  apply List.ext_getElem?
  intro j
  cases hb : lb.backends[j]? with
  | none =>
    rw [List.getElem?_eq_none_iff] at hb ⊢
    rw [select_length]
    exact hb
  | some b =>
    have hna : ¬ b.Available now := fun ha => h j ⟨b, hb, ha⟩
    rw [select_backend hb, afterSelect, hp, if_neg (by simp), Backend.isHealthy_snd_of_not_available hna,
      ite_self]

/-- **`select` is complete and touches nothing on failure.** It returns `None`
exactly when no backend is available, every backend being as before; otherwise an
available backend, whose count of active requests grows by one, modulo its 64 bits, and
no other's. -/
theorem select_complete (lb : LoadBalancer) (ip : Option IpAddr) (now : UInt64)
    (hlast : ∀ b ∈ lb.backends, b.lastFailure ≤ now)
    (hcursor : lb.cursor.toNat + lb.backends.length ≤ 2 ^ 64 - 1) :
    ((lb.select ip now).1 = none ↔ ∀ b ∈ lb.backends, ¬ b.Ready now) ∧
      ((lb.select ip now).1 = none → (lb.select ip now).2.backends = lb.backends) ∧
      ∀ url i, (lb.select ip now).1 = some (url, i) →
        (∃ b, lb.backends[i]? = some b ∧ b.url = url ∧ b.Ready now) ∧
          ∀ j, activeAt (lb.select ip now).2.backends j =
            if j = i then (activeAt lb.backends j + 1) % 2 ^ 64 else activeAt lb.backends j := by
  have hready : ∀ b ∈ lb.backends, b.Available now ↔ b.Ready now := fun b hb =>
    Backend.available_iff_ready (hlast b hb)
  have hnone : (lb.select ip now).1 = none ↔ ∀ i, ¬ AvailableAt lb.backends now i := by
    rw [select_fst, Option.map_eq_none_iff]
    exact pick_eq_none_iff (by omega)
  refine ⟨?_, fun h => ?_, fun url i h => ?_⟩
  · rw [hnone]
    constructor
    · intro h b hb hr
      obtain ⟨i, hi⟩ := List.mem_iff_getElem?.mp hb
      exact h i ⟨b, hi, (hready b hb).mpr hr⟩
    · rintro h i ⟨b, hi, ha⟩
      have hb := List.mem_of_getElem? hi
      exact h b hb ((hready b hb).mp ha)
  · have hp : lb.pick ip now = none := by
      rwa [select_fst, Option.map_eq_none_iff] at h
    exact select_backends_of_pick_none hp (hnone.mp h)
  · rw [select_fst] at h
    obtain ⟨k, hp, he⟩ := Option.map_eq_some_iff.mp h
    obtain ⟨rfl, rfl⟩ := Prod.mk.inj he
    obtain ⟨b, hb, ha⟩ := pick_available hp
    refine ⟨⟨b, hb, ?_, (hready b (List.mem_of_getElem? hb)).mp ha⟩, fun j => ?_⟩
    · simp [urlAt, hb]
    · rw [select_activeAt, hp]
      by_cases hj : j = k
      · rw [if_pos hj, if_pos (congrArg some hj.symm)]
      · rw [if_neg hj, if_neg fun h => hj (Option.some.inj h).symm]
        exact Nat.mod_eq_of_lt (activeAt_lt lb.backends j)

/-- Both circuits are open; the second one's time is up. -/
theorem select_complete_one_up :
    ∃ b : Backend, [⟨"http://a", 0, 5, 80, true⟩, ⟨"http://b", 0, 5, 60, true⟩][1]? = some b ∧
      b.url = "http://b" ∧ b.Ready 100 := by
  obtain ⟨-, -, hsome⟩ := select_complete
    ⟨[⟨"http://a", 0, 5, 80, true⟩, ⟨"http://b", 0, 5, 60, true⟩], .ipHash, 0⟩ none 100
    (by simp) (by decide)
  exact (hsome "http://b" 1 (by decide)).1

/-- A counter at its end is set to zero. -/
theorem active_wraps :
    ¬ ∀ (lb : LoadBalancer) (ip : Option IpAddr) (now : UInt64), (∀ b ∈ lb.backends, b.lastFailure ≤ now) →
      lb.cursor.toNat + lb.backends.length ≤ 2 ^ 64 - 1 → ∀ url i, (lb.select ip now).1 = some (url, i) →
        activeAt (lb.select ip now).2.backends i = activeAt lb.backends i + 1 := by
  intro h
  have := h ⟨[⟨"http://a", -1, 0, 0, false⟩], .roundRobin, 0⟩ none 0 (by simp) (by decide) "http://a" 0 (by decide)
  exact absurd this (by decide)

end LoadBalancer

end Curf
