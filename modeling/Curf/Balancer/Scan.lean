import Curf.Balancer.Complete

/-!
# A scan when the cursor wraps

`round_robin` draws from a 64-bit cursor and takes each number modulo the number of
backends. Where the cursor wraps in the middle of a scan, the positions go on from zero,
wherever they were: `scan_covers_iff` says for which numbers of backends and from where
the scan comes by all of them.
-/

namespace Curf

open Lib

namespace LoadBalancer

/-- The positions that a scan of `round_robin` comes by when it finds no backend healthy. -/
def scan (lb : LoadBalancer) : List Nat := cursorVisits lb.backends.length lb.cursor lb.backends.length

/-- The cursor does not wrap within a scan, or the backends divide its range. -/
def ScanFits (lb : LoadBalancer) : Prop :=
  lb.cursor.toNat + lb.backends.length ≤ 2 ^ 64 ∨ lb.backends.length ∣ 2 ^ 64

variable {lb : LoadBalancer} {now : UInt64}

theorem length_scan (lb : LoadBalancer) : lb.scan.length = lb.backends.length := by
  rw [scan, cursorVisits_eq_readings, Cyclic.readings, List.length_map, List.length_range]

/-- `round_robin` returns the first available backend of the scan. -/
theorem roundRobin_fst (lb : LoadBalancer) (now : UInt64) :
    (lb.roundRobin now).1 = lb.scan.find? (AvailableAt lb.backends now) := by
  rw [roundRobin, (roundRobinFrom_spec ..).1, walk_eq]
  rfl

/-- **Which scans are complete.** A scan comes by each backend once exactly when the
cursor does not wrap in it or the number of backends divides `2 ^ 64`; and only then is it
certain that `round_robin` finds no backend where it returns none. -/
theorem scan_covers_iff (lb : LoadBalancer) :
    (lb.scan.Perm (List.range lb.backends.length) ↔ lb.ScanFits) ∧
      ((∀ bs now, bs.length = lb.backends.length → ({ lb with backends := bs }.roundRobin now).1 = none →
          ∀ i, ¬ AvailableAt bs now i) ↔ lb.ScanFits) := by
  have hperm : lb.scan.Perm (List.range lb.backends.length) ↔ lb.ScanFits := by
    rw [scan, cursorVisits_eq_readings]
    exact Cyclic.readings_perm_iff lb.cursor.toNat_lt
  refine ⟨hperm, ?_⟩
  have hscan : ∀ bs : List Backend, bs.length = lb.backends.length → { lb with backends := bs }.scan = lb.scan := by
    intro bs hlen
    show cursorVisits bs.length lb.cursor bs.length = lb.scan
    rw [hlen, scan]
  rw [← hperm, Cyclic.perm_range_iff lb.length_scan]
  constructor
  · -- one healthy backend, in the position that is looked for
    intro h i hi
    by_contra hmiss
    have hbs : ((List.replicate lb.backends.length (⟨"", 0, 5, 0, true⟩ : Backend)).set i (.new "")).length =
        lb.backends.length := by simp
    have hup : AvailableAt ((List.replicate lb.backends.length (⟨"", 0, 5, 0, true⟩ : Backend)).set i (.new "")) 0 i :=
      ⟨.new "", by simp [hi], .inl rfl⟩
    refine h _ 0 hbs ?_ i hup
    rw [roundRobin_fst, hscan _ hbs, List.find?_eq_none]
    intro j hj
    have hne : i ≠ j := fun he => hmiss (he ▸ hj)
    rw [decide_eq_true_eq]
    rintro ⟨b, hb, ha⟩
    rw [List.getElem?_set_ne hne, List.getElem?_replicate] at hb
    split at hb
    · cases hb
      exact absurd ha (by decide)
    · cases hb
  · intro hall bs now hlen hnone i ha
    rw [roundRobin_fst, hscan bs hlen, List.find?_eq_none] at hnone
    have hlt : i < lb.backends.length := hlen ▸ ha.lt
    exact hnone i (hall i hlt) (decide_eq_true ha)

/-- **A backend is skipped.** Of three backends the scan from `2 ^ 64 - 1` misses the last. -/
theorem wrapped_scan_misses :
    ¬ ∀ lb : LoadBalancer, lb.backends ≠ [] → lb.scan.Perm (List.range lb.backends.length) := by
  intro h
  have hperm := h ⟨List.replicate 3 (.new "http://a"), .roundRobin, 18446744073709551615⟩ (by decide)
  have hmem : 2 ∈ [0, 0, 1] := hperm.mem_iff.mpr (List.mem_range.mpr (by decide))
  exact absurd hmem (by decide)

end LoadBalancer

end Curf
