import Mathlib.Data.Nat.Nth
import Mathlib.Data.Int.CardIntervalMod

/-!
# Going round a cycle

A counter that is read modulo `n` comes by every position within `n` steps; one that
wraps may not (`readings_perm_iff`). The positions that satisfy a predicate `p` are hit in the order of the list
`hits n p`, again and again: `nth_hit` says which is the `k`-th hit. Going round a
list visits its elements evenly (`count_turns_le`).
-/

namespace Lib.Cyclic

variable {n c j : Nat}

/-- A full round from anywhere comes by every position. -/
theorem exists_add_mod_eq (c : Nat) (hj : j < n) : ∃ i < n, (c + i) % n = j := by
  have hn := Nat.zero_lt_of_lt hj
  have hc := Nat.mod_lt c hn
  refine ⟨(n - c % n + j) % n, Nat.mod_lt _ hn, ?_⟩
  rw [Nat.add_mod_mod, ← Nat.mod_add_mod, show c % n + (n - c % n + j) = n + j by omega, Nat.add_mod_left,
    Nat.mod_eq_of_lt hj]

/-! ## Counters that wrap -/

/-- The positions that `k` consecutive readings of a counter below `m` come by, from `c` on. -/
def readings (m n c k : Nat) : List Nat := (List.range k).map fun d => (c + d) % m % n

/-- A list of `n` positions is a permutation of all of them when it misses none. -/
theorem perm_range_iff {l : List Nat} (hlen : l.length = n) : l.Perm (List.range n) ↔ ∀ i < n, i ∈ l := by
  constructor
  · exact fun hperm i hi => hperm.mem_iff.mpr (List.mem_range.mpr hi)
  · intro hall
    have hsub : (List.range n).Subperm l :=
      List.nodup_range.subperm fun i hi => hall i (List.mem_range.mp hi)
    exact (hsub.perm_of_length_le (by rw [hlen, List.length_range])).symm

/-- A counter that wraps in the middle of a round, at no multiple of `n`, repeats a position. -/
theorem readings_not_nodup {m : Nat} (hc : c < m) (hwrap : m < c + n) (hdvd : ¬ n ∣ m) :
    ¬ (readings m n c n).Nodup := by
  intro hnodup
  have hrem : 0 < m % n := Nat.pos_of_ne_zero fun h => hdvd (Nat.dvd_of_mod_eq_zero h)
  have hlt : m % n < n := Nat.mod_lt m (by omega)
  have hle : m % n ≤ m := Nat.mod_le m n
  have hmul := Nat.div_add_mod m n
  have hinj {d e : Nat} (hd : d < n) (he : e < n) (h : (c + d) % m % n = (c + e) % m % n) : d = e :=
    List.inj_on_of_nodup_map hnodup (List.mem_range.mpr hd) (List.mem_range.mpr he) h
  by_cases hj : m % n ≤ m - c
  · -- the last multiple of `n` before the wrap, and zero after it
    have hlast : (c + (m - c - m % n)) % m % n = 0 := by
      rw [show c + (m - c - m % n) = n * (m / n) by omega, Nat.mod_eq_of_lt (show n * (m / n) < m by omega),
        Nat.mul_mod_right]
    have hzero : (c + (m - c)) % m % n = 0 := by
      rw [Nat.add_sub_cancel' hc.le, Nat.mod_self, Nat.zero_mod]
    have := hinj (by omega) (by omega) (hlast.trans hzero.symm)
    omega
  · -- the first reading, and the one as far behind zero as it is behind a multiple of `n`
    obtain ⟨r, hr⟩ : ∃ r, m % n = r + (m - c) := ⟨m % n - (m - c), by omega⟩
    have hfirst : (c + 0) % m % n = r := by
      have hsplit : c = n * (m / n) + r := by omega
      rw [Nat.add_zero, Nat.mod_eq_of_lt hc, hsplit, Nat.mul_add_mod, Nat.mod_eq_of_lt (by omega)]
    have hsecond : (c + m % n) % m % n = r := by
      have hround : c + m % n = r + m := by omega
      rw [hround, Nat.add_mod_right, Nat.mod_eq_of_lt (show r < m by omega), Nat.mod_eq_of_lt (by omega)]
    have := hinj (by omega) hlt (hfirst.trans hsecond.symm)
    omega

/-- **A round of readings** misses no position exactly when the counter does not wrap in it
or wraps at a multiple of `n`. -/
theorem readings_perm_iff {m : Nat} (hc : c < m) :
    (readings m n c n).Perm (List.range n) ↔ c + n ≤ m ∨ n ∣ m := by
  constructor
  · intro hperm
    by_contra hnot
    obtain ⟨hwrap, hdvd⟩ := not_or.mp hnot
    exact readings_not_nodup hc (by omega) hdvd (hperm.nodup_iff.mpr List.nodup_range)
  · intro h
    have hread : ∀ d < n, (c + d) % m % n = (c + d) % n := by
      intro d hd
      rcases h with hfit | hdvd
      · rw [Nat.mod_eq_of_lt (show c + d < m by omega)]
      · exact Nat.mod_mod_of_dvd _ hdvd
    rw [perm_range_iff (by simp [readings])]
    intro i hi
    obtain ⟨d, hd, he⟩ := exists_add_mod_eq c hi
    exact List.mem_map.mpr ⟨d, List.mem_range.mpr hd, (hread d hd).trans he⟩

variable (n) (p : Nat → Prop) [DecidablePred p]

/-- The positions that satisfy `p`, in order. -/
def hits : List Nat := (List.range n).filter p

/-- The counter values whose position satisfies `p`. -/
abbrev Hit (x : Nat) : Prop := p (x % n)

variable {n} {p} {a b k x : Nat}

theorem mem_hits : a ∈ hits n p ↔ a < n ∧ p a := by
  simp [hits]

theorem nodup_hits : (hits n p).Nodup := List.nodup_range.filter _

theorem length_hits : (hits n p).length = Nat.count p n := by
  rw [hits, Nat.count, List.countP_eq_length_filter]

theorem hits_succ (n : Nat) : hits (n + 1) p = hits n p ++ if p n then [n] else [] := by
  rw [hits, List.range_succ, List.filter_append, hits, List.filter_singleton]
  by_cases hp : p n <;> simp [hp]

/-- A hit stands in `hits` behind as many as there are before it. -/
theorem hits_getElem? (ha : a < n) (hp : p a) : (hits n p)[Nat.count p a]? = some a := by
  induction n with
  | zero => cases ha
  | succ n ih =>
    rw [hits_succ]
    rcases Nat.lt_succ_iff_lt_or_eq.mp ha with ha | rfl
    · have h := ih ha
      rwa [List.getElem?_append_left (List.getElem?_eq_some_iff.mp h).1]
    · rw [← length_hits, List.getElem?_append_right (Nat.le_refl _), Nat.sub_self, if_pos hp]
      rfl

/-- The hits of the first round are those of `p`. -/
theorem count_hit_of_le (ha : a ≤ n) : Nat.count (Hit n p) a = Nat.count p a := by
  unfold Nat.count
  refine List.countP_congr fun x hx => ?_
  have hx := List.mem_range.mp hx
  simp [Hit, Nat.mod_eq_of_lt (show x < n by omega)]

/-- Each round has as many hits. -/
theorem count_hit (q a : Nat) :
    Nat.count (Hit n p) (q * n + a) = q * (hits n p).length + Nat.count (Hit n p) a := by
  induction q with
  | zero => simp
  | succ q ih =>
    have hshift : Nat.count (fun x => Hit n p (n + x)) (q * n + a) = Nat.count (Hit n p) (q * n + a) := by
      unfold Nat.count
      refine List.countP_congr fun x _ => ?_
      simp [Hit]
    rw [show (q + 1) * n + a = n + (q * n + a) by ring, Nat.count_add, hshift, ih,
      count_hit_of_le (Nat.le_refl n), ← length_hits]
    ring

/-- **The `k`-th hit** is in the `k`-th position of `hits`, counted in a circle. -/
theorem nth_hit (hne : hits n p ≠ []) (k : Nat) :
    (hits n p)[k % (hits n p).length]? = some (Nat.nth (Hit n p) k % n) ∧ Hit n p (Nat.nth (Hit n p) k) := by
  have hlen : 0 < (hits n p).length := List.length_pos_iff.mpr hne
  have hr := Nat.mod_lt k hlen
  have ha := (List.getElem_mem hr : (hits n p)[k % (hits n p).length] ∈ _)
  obtain ⟨hlt, hp⟩ := mem_hits.mp ha
  generalize he : (hits n p)[k % (hits n p).length] = a at ha hlt hp
  have hget : (hits n p)[k % (hits n p).length]? = some a := by rw [List.getElem?_eq_getElem hr, he]
  have hcount : Nat.count p a = k % (hits n p).length := by
    have h := hits_getElem? hlt hp
    obtain ⟨hi, hi'⟩ := List.getElem?_eq_some_iff.mp h
    exact (List.Nodup.getElem_inj_iff nodup_hits).mp (hi'.trans he.symm)
  have hmod : (k / (hits n p).length * n + a) % n = a := by
    rw [Nat.mul_add_mod', Nat.mod_eq_of_lt hlt]
  have hhit : Hit n p (k / (hits n p).length * n + a) := by
    unfold Hit
    rw [hmod]
    exact hp
  have hnth : Nat.nth (Hit n p) k = k / (hits n p).length * n + a := by
    have hk : Nat.count (Hit n p) (k / (hits n p).length * n + a) = k := by
      rw [count_hit, count_hit_of_le hlt.le, hcount]
      exact Nat.div_add_mod' k _
    have := Nat.nth_count hhit
    rwa [hk] at this
  rw [hnth, hmod]
  exact ⟨hget, hhit⟩

/-- From anywhere there is a first hit within a round. -/
theorem exists_first_hit (hp : ∃ a < n, p a) (c : Nat) :
    ∃ x, c ≤ x ∧ x < c + n ∧ Hit n p x ∧ ∀ y, c ≤ y → y < x → ¬ Hit n p y := by
  obtain ⟨a, ha, hpa⟩ := hp
  obtain ⟨d, hd, hda⟩ := exists_add_mod_eq c ha
  have hex : ∃ d, Hit n p (c + d) := ⟨d, by unfold Hit; rw [hda]; exact hpa⟩
  refine ⟨c + Nat.find hex, Nat.le_add_right .., ?_, Nat.find_spec hex, fun y hcy hy => ?_⟩
  · have := Nat.find_min' hex (show Hit n p (c + d) by unfold Hit; rw [hda]; exact hpa)
    omega
  · have := Nat.find_min hex (m := y - c) (by omega)
    rwa [show c + (y - c) = y by omega] at this

/-- Up to the first hit none is counted. -/
theorem count_first_hit (hcx : c ≤ x) (hfirst : ∀ y, c ≤ y → y < x → ¬ Hit n p y) :
    Nat.count (Hit n p) x = Nat.count (Hit n p) c := by
  obtain ⟨d, rfl⟩ := Nat.exists_eq_add_of_le hcx
  induction d with
  | zero => rfl
  | succ d ih =>
    rw [← Nat.add_assoc, Nat.count_succ, if_neg (hfirst (c + d) (by omega) (by omega)), Nat.add_zero]
    exact ih (by omega) fun y hy hlt => hfirst y hy (by omega)

/-! ## Going round a list -/

variable {α : Type} {l : List α} {a b : α}

/-- The first `k` elements met in going round `l`. -/
def turns (l : List α) (k : Nat) : List (Option α) := (List.range k).map fun j => l[j % l.length]?

@[simp] theorem length_turns : (turns l k).length = k := by simp [turns]

theorem turns_succ (l : List α) (k : Nat) : turns l (k + 1) = turns l k ++ [l[k % l.length]?] := by
  simp [turns, List.range_succ]

/-- Only elements of `l` are met. -/
theorem exists_of_mem_turns {o : Option α} (hl : l ≠ []) (h : o ∈ turns l k) : ∃ a ∈ l, o = some a := by
  obtain ⟨j, -, rfl⟩ := List.mem_map.mp h
  have hlt := Nat.mod_lt j (List.length_pos_iff.mpr hl)
  exact ⟨l[j % l.length], List.getElem_mem hlt, List.getElem?_eq_getElem hlt⟩

variable [DecidableEq α]

/-- An element is met once in each full round, and once more in the last if its
turn has come. -/
theorem count_turns (hl : l.Nodup) {r : Nat} (hr : r < l.length) :
    (turns l k).count (some l[r]) = k / l.length + if r < k % l.length then 1 else 0 := by
  have hlen : 0 < l.length := by omega
  have hturn (j : Nat) : l[j % l.length]? = some l[r] ↔ j ≡ r [MOD l.length] := by
    rw [List.getElem?_eq_getElem (Nat.mod_lt j hlen), Option.some.injEq, List.Nodup.getElem_inj_iff hl,
      Nat.ModEq, Nat.mod_eq_of_lt hr]
  have hcount : (turns l k).count (some l[r]) = Nat.count (· ≡ r [MOD l.length]) k := by
    unfold turns Nat.count
    rw [List.count, List.countP_map]
    refine List.countP_congr fun j _ => ?_
    simp [hturn]
  rw [hcount, Nat.count_modEq_card k hlen, Nat.mod_eq_of_lt hr]

/-- **Going round is even**: no element is met more than once more than another. -/
theorem count_turns_le (hl : l.Nodup) (ha : a ∈ l) (hb : b ∈ l) :
    (turns l k).count (some a) ≤ (turns l k).count (some b) + 1 := by
  obtain ⟨r, hr, rfl⟩ := List.mem_iff_getElem.mp ha
  obtain ⟨q, hq, rfl⟩ := List.mem_iff_getElem.mp hb
  rw [count_turns hl hr, count_turns hl hq]
  split <;> split <;> omega

end Lib.Cyclic
