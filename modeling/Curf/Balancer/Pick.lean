import Mathlib.Data.Nat.Basic
import Mathlib.Data.List.Nodup
import Curf.Balancer.Select
import Curf.Lib.First

/-!
# What `select` does

`select_fst` says which backend is returned in terms of the backends available
before the call, `pick_eq_some_iff` what the three strategies look for, and
`select_backend` what the call does to each backend. The sections after it read
off the circuits, the URLs and the active requests.
-/

namespace Curf

open Lib

namespace LoadBalancer

/-! ## What `select` returns -/

/-- Whether the backend in position `i` is available at `now`. -/
def AvailableAt (bs : List Backend) (now : UInt64) (i : Nat) : Prop :=
  ∃ b, bs[i]? = some b ∧ b.Available now

/-- The requests the backend in position `i` is counted for. -/
def activeAt (bs : List Backend) (i : Nat) : Nat := (bs[i]?.map (·.active.toNat)).getD 0

instance (bs : List Backend) (now : UInt64) (i : Nat) : Decidable (AvailableAt bs now i) :=
  match h : bs[i]? with
  | none => isFalse fun ⟨b, hb, _⟩ => by rw [h] at hb; cases hb
  | some b => decidable_of_iff (b.Available now) (by simp [AvailableAt, h])

/-- The positions `round_robin` goes through. -/
def cursorVisits (n : Nat) : UInt64 → Nat → List Nat
  | _, 0 => []
  | c, k + 1 => c.toNat % n :: cursorVisits n (c + 1) k

/-- The positions a strategy that walks goes through. -/
def visits (lb : LoadBalancer) (ip : Option IpAddr) : List Nat :=
  match lb.strategy with
  | .roundRobin => cursorVisits lb.backends.length lb.cursor lb.backends.length
  | .leastConnections => List.range lb.backends.length
  | .ipHash => hashVisits lb.backends.length ip

/-- The position that the strategy picks from the backends available. -/
def pick (lb : LoadBalancer) (ip : Option IpAddr) (now : UInt64) : Option Nat :=
  match lb.strategy with
  | .roundRobin | .ipHash => (lb.visits ip).find? (AvailableAt lb.backends now)
  | .leastConnections =>
    ((lb.visits ip).filter (AvailableAt lb.backends now)).minOn? (activeAt lb.backends)

variable {lb : LoadBalancer} {bs : List Backend} {now : UInt64} {ip : Option IpAddr} {i j : Nat}

theorem ask_fst : (ask bs i now).1 = decide (AvailableAt bs now i) := by
  unfold ask
  cases h : bs[i]? with
  | none => simp [AvailableAt, h]
  | some b => simp [AvailableAt, h, Backend.isHealthy_fst]

/-- A backend that is not available is left as it is. -/
theorem ask_snd_of_not_available (h : ¬ AvailableAt bs now i) : (ask bs i now).2 = bs := by
  unfold ask
  apply List.ext_getElem?
  intro k
  rw [List.getElem?_modify]
  split
  · rename_i hk
    subst hk
    cases hb : bs[i]? with
    | none => rfl
    | some b =>
      have := Backend.isHealthy_snd_of_not_available fun ha : b.Available now => h ⟨b, hb, ha⟩
      simp [this]
  · simp

theorem walk_eq (now : UInt64) (is : List Nat) (bs : List Backend) :
    walk now is bs = (is.find? (AvailableAt bs now),
      match is.find? (AvailableAt bs now) with
      | none => bs
      | some i => (ask bs i now).2) := by
  induction is with
  | nil => rfl
  | cons i is ih =>
    rw [walk]
    by_cases h : AvailableAt bs now i
    · simp [ask_fst, h]
    · simp only [ask_fst, h, decide_false, Bool.false_eq_true, if_false, ask_snd_of_not_available h, ih,
        List.find?_cons]

theorem walk_length (is : List Nat) : (walk now is bs).2.length = bs.length := by
  rw [walk_eq]
  split
  · rfl
  · exact List.length_modify ..

/-- The loop of `round_robin` is a walk through the positions the cursor draws. -/
theorem roundRobinFrom_spec (now : UInt64) (k : Nat) (lb : LoadBalancer) :
    (roundRobinFrom now k lb).1 = (walk now (cursorVisits lb.backends.length lb.cursor k) lb.backends).1 ∧
      (roundRobinFrom now k lb).2.backends =
        (walk now (cursorVisits lb.backends.length lb.cursor k) lb.backends).2 ∧
      (roundRobinFrom now k lb).2.strategy = lb.strategy := by
  induction k generalizing lb with
  | zero => exact ⟨rfl, rfl, rfl⟩
  | succ k ih =>
    rw [roundRobinFrom, cursorVisits, walk]
    split
    · exact ⟨rfl, rfl, rfl⟩
    · have hlen (idx : Nat) : (ask lb.backends idx now).2.length = lb.backends.length :=
        List.length_modify ..
      simpa only [hlen] using ih { lb with
        backends := (ask lb.backends (lb.cursor.toNat % lb.backends.length) now).2
        cursor := lb.cursor + 1 }

theorem asked_isHealthy (bs : List Backend) (now : UInt64) (i : Nat) :
    ((bs.map (·.isHealthy now))[i]?.map (·.1)).getD false = decide (AvailableAt bs now i) := by
  rw [← ask_fst, ask, List.getElem?_map, Option.map_map]
  rfl

theorem asked_active (bs : List Backend) (now : UInt64) (i : Nat) :
    ((bs.map (·.isHealthy now))[i]?.map (·.2.active.toNat)).getD 0 = activeAt bs i := by
  rw [activeAt, List.getElem?_map, Option.map_map]
  simp only [Function.comp_def, Backend.isHealthy_active]

theorem choose_fst : (lb.choose ip now).1 = lb.pick ip now := by
  unfold choose pick visits
  cases lb.strategy with
  | roundRobin =>
    dsimp only [roundRobin]
    rw [(roundRobinFrom_spec ..).1, walk_eq]
  | leastConnections =>
    simp only [leastConnections, leastActive, asked_isHealthy, asked_active, List.length_map]
  | ipHash =>
    dsimp only [ipHash]
    rw [walk_eq]

/-- A walk asks the unavailable ones in vain and then the one it ends at. -/
theorem walk_backend {is : List Nat} {b : Backend} (h : bs[j]? = some b) :
    (walk now is bs).2[j]? = some (if (walk now is bs).1 = some j then (b.isHealthy now).2 else b) := by
  rw [walk_eq]
  cases is.find? (AvailableAt bs now) with
  | none => simpa using h
  | some i =>
    dsimp only [ask]
    rw [List.getElem?_modify, h]
    by_cases hij : i = j
    · subst hij; simp
    · simp [hij]

/-- `least_connections` asks every backend, the others the one they return. -/
theorem choose_backend (ip : Option IpAddr) (now : UInt64) {b : Backend} (h : lb.backends[j]? = some b) :
    (lb.choose ip now).2.backends[j]? = some (
      if lb.strategy = .leastConnections ∨ lb.pick ip now = some j then (b.isHealthy now).2 else b) := by
  rw [← choose_fst]
  unfold choose
  cases hs : lb.strategy with
  | roundRobin =>
    obtain ⟨h1, h2, -⟩ := roundRobinFrom_spec now lb.backends.length lb
    simp only [roundRobin, h1, h2, reduceCtorEq, false_or]
    exact walk_backend h
  | leastConnections => simp [leastConnections, h]
  | ipHash =>
    simp only [ipHash, reduceCtorEq, false_or]
    exact walk_backend h

theorem choose_length (lb : LoadBalancer) (ip : Option IpAddr) (now : UInt64) :
    (lb.choose ip now).2.backends.length = lb.backends.length := by
  unfold choose
  split
  · rw [roundRobin, (roundRobinFrom_spec ..).2.1, walk_length]
  · simp [leastConnections]
  · exact walk_length ..

/-! ## The specification of `select` -/

theorem pick_available (h : lb.pick ip now = some i) : AvailableAt lb.backends now i := by
  unfold pick at h
  split at h
  · simpa using List.find?_some h
  · simpa using List.find?_some h
  · simpa using (List.mem_filter.mp (List.minOn?_mem h)).2

theorem pick_nil (h : lb.backends = []) : lb.pick ip now = none := by
  cases hp : lb.pick ip now with
  | none => rfl
  | some i =>
    obtain ⟨b, hb, -⟩ := pick_available hp
    rw [h] at hb
    cases hb

theorem urlAt_choose (lb : LoadBalancer) (ip : Option IpAddr) (now : UInt64) (j : Nat) :
    (lb.choose ip now).2.urlAt j = lb.urlAt j := by
  unfold urlAt
  cases h : lb.backends[j]? with
  | none =>
    rw [List.getElem?_eq_none_iff, ← choose_length lb ip now] at h
    rw [List.getElem?_eq_none_iff.mpr h]
  | some b =>
    rw [choose_backend ip now h]
    split <;> simp

/-- `select` returns the backend that the strategy picks from those available. -/
theorem select_fst (lb : LoadBalancer) (ip : Option IpAddr) (now : UInt64) :
    (lb.select ip now).1 = (lb.pick ip now).map fun i => (lb.urlAt i, i) := by
  unfold select
  split
  · rename_i he
    rw [pick_nil (List.isEmpty_iff.mp he)]; rfl
  · rw [← choose_fst]
    split
    · rename_i h; rw [h]; rfl
    · rename_i i lb' h
      have := urlAt_choose lb ip now i
      rw [h] at this
      simp only [h, Option.map_some, ← this]

theorem select_eq (lb : LoadBalancer) (ip : Option IpAddr) (now : UInt64) :
    lb.select ip now = ((lb.pick ip now).map fun i => (lb.urlAt i, i), (lb.select ip now).2) :=
  Prod.ext (select_fst lb ip now) rfl

/-- What `select` does to the backend `b` in position `j`. -/
def afterSelect (lb : LoadBalancer) (ip : Option IpAddr) (now : UInt64) (j : Nat) (b : Backend) :
    Backend :=
  if lb.pick ip now = some j then (b.isHealthy now).2.acquire
  else if lb.strategy = .leastConnections then (b.isHealthy now).2
  else b

@[simp] theorem afterSelect_lastFailure (lb : LoadBalancer) (ip : Option IpAddr) (now : UInt64) (j : Nat)
    (b : Backend) : (lb.afterSelect ip now j b).lastFailure = b.lastFailure := by
  unfold afterSelect
  split
  · exact Backend.isHealthy_lastFailure
  · split
    · exact Backend.isHealthy_lastFailure
    · rfl

/-- A breaker with a closed circuit is left as it is. -/
theorem afterSelect_of_closed {b : Backend} (h : b.circuitOpen = false) (lb : LoadBalancer) (ip : Option IpAddr)
    (now : UInt64) (j : Nat) :
    (lb.afterSelect ip now j b).circuitOpen = false ∧ (lb.afterSelect ip now j b).failures = b.failures := by
  unfold afterSelect
  rw [Backend.isHealthy_snd_of_closed h, ite_self]
  split
  · exact ⟨h, rfl⟩
  · exact ⟨h, rfl⟩

theorem select_backend {b : Backend} (h : lb.backends[j]? = some b) :
    (lb.select ip now).2.backends[j]? = some (lb.afterSelect ip now j b) := by
  have hc := choose_backend ip now h
  unfold select afterSelect
  split
  · rename_i he
    rw [List.isEmpty_iff.mp he] at h
    cases h
  · rw [← choose_fst] at hc ⊢
    split
    · rename_i he
      rw [he] at hc ⊢
      simpa using hc
    · rename_i i lb' he
      rw [he] at hc ⊢
      dsimp only at hc ⊢
      rw [List.getElem?_modify, hc]
      by_cases hij : i = j
      · subst hij; simp
      · simp [hij]

theorem select_length (lb : LoadBalancer) (ip : Option IpAddr) (now : UInt64) :
    (lb.select ip now).2.backends.length = lb.backends.length := by
  have := choose_length lb ip now
  unfold select
  split
  · rfl
  · split
    · rename_i h; rwa [h] at this
    · rename_i h
      rw [h] at this
      rw [← this]
      exact List.length_modify ..

/-- The backend in position `j` comes before the one in position `i` in the order
of the strategy. -/
def Ahead (lb : LoadBalancer) (ip : Option IpAddr) (j i : Nat) : Prop :=
  match lb.strategy with
  | .roundRobin | .ipHash => j ∈ (lb.visits ip).takeWhile (· ≠ i)
  | .leastConnections => Earlier (activeAt lb.backends) (· < ·) j i

instance (lb : LoadBalancer) (ip : Option IpAddr) (j i : Nat) : Decidable (lb.Ahead ip j i) :=
  match h : lb.strategy with
  | .roundRobin | .ipHash => decidable_of_iff (j ∈ (lb.visits ip).takeWhile (· ≠ i)) (by simp only [Ahead, h])
  | .leastConnections => decidable_of_iff (activeAt lb.backends j < activeAt lb.backends i ∨
      activeAt lb.backends j = activeAt lb.backends i ∧ j < i) (by simp only [Ahead, h, Earlier])

theorem AvailableAt.lt (h : AvailableAt bs now i) : i < bs.length := by
  obtain ⟨b, hb, -⟩ := h
  exact (List.getElem?_eq_some_iff.mp hb).1

/-- **The choice of a strategy.** It picks an available backend that it comes by,
and no available backend is ahead of it. -/
theorem pick_eq_some_iff : lb.pick ip now = some i ↔
    i ∈ lb.visits ip ∧ AvailableAt lb.backends now i ∧
      ∀ j ∈ lb.visits ip, AvailableAt lb.backends now j → ¬ lb.Ahead ip j i := by
  have hwalk : (lb.visits ip).find? (AvailableAt lb.backends now) = some i ↔
      i ∈ lb.visits ip ∧ AvailableAt lb.backends now i ∧
        ∀ j ∈ lb.visits ip, AvailableAt lb.backends now j → j ∉ (lb.visits ip).takeWhile (· ≠ i) := by
    rw [find?_eq_some_iff_takeWhile]
    simp only [decide_eq_true_eq, decide_eq_false_iff_not]
    refine and_congr_right fun _ => and_congr_right fun _ => ⟨fun h j _ ha hj => h j hj ha, fun h j hj ha => ?_⟩
    exact h j (List.takeWhile_subset _ hj) ha hj
  unfold pick Ahead
  split
  · exact hwalk
  · exact hwalk
  · rename_i hs
    have hsorted : ((lb.visits ip).filter (AvailableAt lb.backends now)).Pairwise (· < ·) := by
      unfold visits
      rw [hs]
      exact List.pairwise_lt_range.filter _
    rw [minOn?_eq_some_iff (fun a b h => Nat.lt_asymm h) hsorted]
    simp only [List.mem_filter, decide_eq_true_eq, and_assoc]
    refine and_congr_right fun _ => and_congr_right fun _ => ⟨fun h j hj ha => ?_, fun h j hj => ?_⟩
    · rcases h j ⟨hj, ha⟩ with rfl | h
      · exact fun he => he.asymm (fun a b h => Nat.lt_asymm h) he
      · exact h.asymm fun a b h => Nat.lt_asymm h
    · by_cases hij : j = i
      · exact .inl hij
      · exact .inr ((Earlier.total (Nat.lt_or_gt_of_ne hij)).resolve_left (h j hj.1 hj.2))

/-- `least_connections` picks an available backend that the fewest requests are counted for. -/
theorem pick_least (hlc : lb.strategy = .leastConnections) (hp : lb.pick ip now = some i)
    (hj : AvailableAt lb.backends now j) : activeAt lb.backends i ≤ activeAt lb.backends j := by
  obtain ⟨-, -, hfirst⟩ := pick_eq_some_iff.mp hp
  have hvisits : j ∈ lb.visits ip := by
    unfold visits
    rw [hlc]
    exact List.mem_range.mpr hj.lt
  have hahead := hfirst j hvisits hj
  unfold Ahead at hahead
  rw [hlc] at hahead
  exact Nat.le_of_not_lt fun hlt => hahead (.inl hlt)

/-- An available backend that is not picked is passed over: the strategy does not
come by it, or an available one is ahead of it. -/
def PassedOver (lb : LoadBalancer) (ip : Option IpAddr) (now : UInt64) (i : Nat) : Prop :=
  i ∉ lb.visits ip ∨ ∃ j ∈ lb.visits ip, AvailableAt lb.backends now j ∧ lb.Ahead ip j i

instance (lb : LoadBalancer) (ip : Option IpAddr) (now : UInt64) (i : Nat) : Decidable (lb.PassedOver ip now i) :=
  inferInstanceAs (Decidable (_ ∨ _))

theorem pick_ne_iff_passedOver (h : AvailableAt lb.backends now i) :
    lb.pick ip now ≠ some i ↔ lb.PassedOver ip now i := by
  rw [Ne, pick_eq_some_iff, not_and_or, PassedOver]
  apply or_congr_right
  constructor
  · intro hne
    by_contra hno
    exact hne ⟨h, fun j hj ha hah => hno ⟨j, hj, ha, hah⟩⟩
  · rintro ⟨j, hj, ha, hah⟩ ⟨-, hfirst⟩
    exact hfirst j hj ha hah

/-! ## The circuits -/

/-- Whether the circuit of the backend in position `i` is open. -/
def circuitAt (bs : List Backend) (i : Nat) : Bool := (bs[i]?.map (·.circuitOpen)).getD false

theorem circuitAt_modify (f : Backend → Backend) :
    circuitAt (bs.modify i f) j =
      if i = j then (bs[j]?.map fun b => (f b).circuitOpen).getD false else circuitAt bs j := by
  unfold circuitAt
  rw [List.getElem?_modify]
  split <;> cases bs[j]? <;> rfl

/-- A closed circuit is available. -/
theorem availableAt_of_closed (hi : i < bs.length) (h : circuitAt bs i = false) :
    AvailableAt bs now i := by
  refine ⟨bs[i], List.getElem?_eq_getElem hi, .inl ?_⟩
  simpa [circuitAt, hi] using h

/-- An open circuit keeps its backend away until its last failure is 30 seconds old. -/
theorem not_availableAt_of_open (h : circuitAt bs i = true)
    (hrecent : ∀ b, bs[i]? = some b → now - b.lastFailure < cbResetSecs) : ¬ AvailableAt bs now i := by
  rintro ⟨b, hb, ha⟩
  rw [circuitAt, hb] at h
  rcases ha with ha | ha
  · replace h : b.circuitOpen = true := h
    rw [ha] at h
    cases h
  · exact absurd ha (UInt64.not_le.mpr (hrecent b hb))

/-- `select` closes the circuit of the backend in position `j`: its time is up, and
the strategy asks it. -/
def HalfOpens (lb : LoadBalancer) (ip : Option IpAddr) (now : UInt64) (j : Nat) : Prop :=
  AvailableAt lb.backends now j ∧ (lb.strategy = .leastConnections ∨ ¬ lb.PassedOver ip now j)

/-- A backend that is picked is asked. -/
theorem halfOpens_of_pick (h : lb.pick ip now = some i) : lb.HalfOpens ip now i := by
  have hav := pick_available h
  exact ⟨hav, .inr fun hp => (pick_ne_iff_passedOver hav).mpr hp h⟩

/-- A circuit is open after a `select` if it was before and is not half-opened. -/
theorem select_circuitAt (lb : LoadBalancer) (ip : Option IpAddr) (now : UInt64) (j : Nat) :
    circuitAt (lb.select ip now).2.backends j = true ↔
    circuitAt lb.backends j = true ∧ ¬ lb.HalfOpens ip now j := by
  cases hb : lb.backends[j]? with
  | none =>
    have hlen : (lb.select ip now).2.backends.length = lb.backends.length := select_length lb ip now
    have hb' : (lb.select ip now).2.backends[j]? = none := by
      rw [List.getElem?_eq_none_iff] at hb ⊢
      rw [hlen]; exact hb
    simp [circuitAt, hb, hb']
  | some b =>
    have hav : AvailableAt lb.backends now j ↔ b.Available now := by simp [AvailableAt, hb]
    simp only [circuitAt, hb, select_backend hb, Option.map_some, Option.getD_some, HalfOpens, hav]
    by_cases ha : b.Available now
    · rw [← pick_ne_iff_passedOver (hav.mpr ha), Ne, not_not]
      have hclosed := Backend.isHealthy_snd_closed ha
      unfold afterSelect
      by_cases hp : lb.pick ip now = some j
      · simp [hp, ha, hclosed]
      · by_cases hs : lb.strategy = .leastConnections
        · simp [hp, hs, ha, hclosed]
        · simp [hp, hs, ha]
    · have hp : lb.pick ip now ≠ some j := fun hp => ha (hav.mp (pick_available hp))
      simp [afterSelect, hp, ha, Backend.isHealthy_snd_of_not_available ha]

/-- `select` opens no circuit. -/
theorem select_circuitAt_closed (h : circuitAt lb.backends j = false) :
    circuitAt (lb.select ip now).2.backends j = false := by
  rw [Bool.eq_false_iff] at h ⊢
  exact fun ho => h ((select_circuitAt lb ip now j).mp ho).1

/-- The backend returned has its circuit closed. -/
theorem select_circuitAt_pick (h : lb.pick ip now = some i) :
    circuitAt (lb.select ip now).2.backends i = false := by
  obtain ⟨b, hb, ha⟩ := pick_available h
  rw [circuitAt, select_backend hb, afterSelect, if_pos h]
  exact Backend.isHealthy_snd_closed ha

/-! ## Active requests -/

theorem activeAt_lt (bs : List Backend) (i : Nat) : activeAt bs i < 2 ^ 64 := by
  unfold activeAt
  cases bs[i]? with
  | none => exact Nat.two_pow_pos 64
  | some b => exact b.active.toNat_lt

theorem activeAt_new (cfg : DomainConfig) (i : Nat) : activeAt (cfg.backends.map .new) i = 0 := by
  unfold activeAt
  rw [List.getElem?_map]
  cases cfg.backends[i]? <;> rfl

/-- A backend that is returned counts one more, up to the width of the counter. -/
theorem select_activeAt : activeAt (lb.select ip now).2.backends j =
    (activeAt lb.backends j + if lb.pick ip now = some j then 1 else 0) % 2 ^ 64 := by
  have hlt := activeAt_lt lb.backends j
  unfold activeAt at hlt ⊢
  cases hb : lb.backends[j]? with
  | none =>
    have hp : lb.pick ip now ≠ some j := fun hp => by
      obtain ⟨b, hb', -⟩ := pick_available hp
      rw [hb] at hb'
      cases hb'
    have hb' : (lb.select ip now).2.backends[j]? = none := by
      rw [List.getElem?_eq_none_iff] at hb ⊢
      rw [select_length]; exact hb
    simp [hb', hp]
  | some b =>
    have hmod := Nat.mod_eq_of_lt b.active.toNat_lt
    rw [select_backend hb, afterSelect]
    by_cases hp : lb.pick ip now = some j
    · simp [hp, UInt64.toNat_add]
    · by_cases hs : lb.strategy = .leastConnections <;> simp [hp, hs]

theorem activeAt_modify (f : Backend → Backend) :
    activeAt (bs.modify i f) j =
      if i = j then (bs[j]?.map fun b => (f b).active.toNat).getD 0 else activeAt bs j := by
  unfold activeAt
  rw [List.getElem?_modify]
  split <;> cases bs[j]? <;> rfl

/-- An outcome changes no active count. -/
theorem activeAt_modify_same {f : Backend → Backend} (hf : ∀ b, (f b).active = b.active) :
    activeAt (bs.modify i f) j = activeAt bs j := by
  rw [activeAt_modify]
  simp only [hf, activeAt, ite_self]

theorem success_activeAt (url : String) :
    activeAt (lb.success url).backends j = activeAt lb.backends j := by
  unfold success
  split
  · rfl
  · exact activeAt_modify_same fun _ => rfl

theorem failure_activeAt (url : String) :
    activeAt (lb.failure url now).backends j = activeAt lb.backends j := by
  unfold failure
  split
  · rfl
  · exact activeAt_modify_same fun _ => rfl

/-- A dropped guard takes one request off its backend, up to the width of the counter. -/
theorem dropGuard_activeAt_mod (hi : i < lb.backends.length) (j : Nat) :
    (activeAt (lb.dropGuard i).backends j + if i = j then 1 else 0) % 2 ^ 64 = activeAt lb.backends j := by
  unfold dropGuard
  rw [activeAt_modify]
  by_cases hij : i = j
  · subst hij
    have hlt := lb.backends[i].active.toNat_lt
    simp only [activeAt, List.getElem?_eq_getElem hi, if_true, Option.map_some, Option.getD_some, Backend.release,
      UInt64.toNat_sub, UInt64.toNat_one]
    omega
  · rw [if_neg hij, if_neg hij, Nat.add_zero, Nat.mod_eq_of_lt (activeAt_lt lb.backends j)]

/-- And off the count itself if that is not zero. -/
theorem dropGuard_activeAt (h : 0 < activeAt lb.backends i) :
    activeAt (lb.dropGuard i).backends j + (if i = j then 1 else 0) = activeAt lb.backends j := by
  unfold dropGuard
  rw [activeAt_modify]
  by_cases hij : i = j
  · subst hij
    unfold activeAt at h ⊢
    cases hb : lb.backends[i]? with
    | none => rw [hb] at h; exact absurd h (Nat.lt_irrefl 0)
    | some b =>
      rw [hb] at h
      replace h : 0 < b.active.toNat := h
      have hle : 1 ≤ b.active := UInt64.le_iff_toNat_le.mpr h
      simp only [if_true, Option.map_some, Option.getD_some, Backend.release]
      rw [UInt64.toNat_sub_of_le _ _ hle, UInt64.toNat_one]
      omega
  · simp [hij]

/-! ## The strategy -/

theorem choose_strategy (lb : LoadBalancer) (ip : Option IpAddr) (now : UInt64) :
    (lb.choose ip now).2.strategy = lb.strategy := by
  unfold choose
  split
  · exact (roundRobinFrom_spec ..).2.2
  · rfl
  · rfl

theorem select_strategy : (lb.select ip now).2.strategy = lb.strategy := by
  have hchoose := choose_strategy lb ip now
  unfold select
  split
  · rfl
  · split <;> rename_i h <;> rw [h] at hchoose <;> exact hchoose

theorem success_strategy (url : String) : (lb.success url).strategy = lb.strategy := by
  unfold success
  split <;> rfl

theorem failure_strategy (url : String) : (lb.failure url now).strategy = lb.strategy := by
  unfold failure
  split <;> rfl

/-! ## URLs -/

/-- The URLs of the backends. -/
def urls (lb : LoadBalancer) : List String := lb.backends.map (·.url)

theorem urls_new (cfg : DomainConfig) : (new cfg).urls = cfg.backends := by
  unfold urls new
  rw [List.map_map]
  exact List.map_id _

theorem urls_getElem? : lb.urls[i]? = lb.backends[i]?.map (·.url) := List.getElem?_map ..

theorem urlAt_eq : lb.urlAt i = lb.urls[i]?.getD "" := by rw [urls_getElem?]; rfl

theorem select_urls (lb : LoadBalancer) (ip : Option IpAddr) (now : UInt64) :
    (lb.select ip now).2.urls = lb.urls := by
  apply List.ext_getElem?
  intro j
  rw [urls_getElem?, urls_getElem?]
  cases hb : lb.backends[j]? with
  | none =>
    rw [List.getElem?_eq_none_iff, ← select_length lb ip now] at hb
    rw [List.getElem?_eq_none_iff.mpr hb]
  | some b =>
    rw [select_backend hb, afterSelect]
    split
    · simp
    · split <;> simp

theorem map_url_modify {f : Backend → Backend} (hf : ∀ b, (f b).url = b.url) :
    (bs.modify i f).map (·.url) = bs.map (·.url) := by
  apply List.ext_getElem?
  intro j
  rw [List.getElem?_map, List.getElem?_map, List.getElem?_modify]
  split <;> cases bs[j]? <;> simp [hf]

theorem success_urls (url : String) : (lb.success url).urls = lb.urls := by
  unfold success
  split
  · rfl
  · exact map_url_modify fun _ => rfl

theorem failure_urls (url : String) : (lb.failure url now).urls = lb.urls := by
  unfold failure
  split
  · rfl
  · exact map_url_modify fun _ => rfl

theorem dropGuard_urls : (lb.dropGuard i).urls = lb.urls := map_url_modify fun _ => rfl

/-- The search goes by the URLs. -/
theorem find_eq (lb : LoadBalancer) (url : String) : lb.find url = lb.urls.findIdx? (· = url) := by
  unfold find urls
  rw [List.findIdx?_map]
  rfl

/-- The backend found for a URL has it. -/
theorem urls_of_find {url : String} (h : lb.find url = some i) : lb.urls[i]? = some url := by
  unfold find at h
  obtain ⟨hi, hu, -⟩ := List.findIdx?_eq_some_iff_getElem.mp h
  rw [urls_getElem?, List.getElem?_eq_getElem hi, Option.map_some]
  exact congrArg some (of_decide_eq_true hu)

theorem find_isSome_of_urls {url : String} (h : lb.urls[i]? = some url) : ∃ j, lb.find url = some j := by
  rw [find_eq]
  cases hf : lb.urls.findIdx? (· = url) with
  | some j => exact ⟨j, rfl⟩
  | none =>
    have := List.findIdx?_eq_none_iff.mp hf url (List.mem_of_getElem? h)
    simp at this

theorem backend_of_find {url : String} (h : lb.find url = some i) : ∃ be, lb.backends[i]? = some be := by
  have hu := urls_of_find h
  rw [urls_getElem?] at hu
  obtain ⟨be, hbe, -⟩ := Option.map_eq_some_iff.mp hu
  exact ⟨be, hbe⟩

/-- With distinct URLs, a URL is found in its only position. -/
theorem eq_of_find (hn : lb.urls.Nodup) {url : String} (h : lb.find url = some i)
    (hj : lb.urls[j]? = some url) : i = j := by
  obtain ⟨hi, hu⟩ := List.getElem?_eq_some_iff.mp (urls_of_find h)
  obtain ⟨hj, hu'⟩ := List.getElem?_eq_some_iff.mp hj
  exact (List.Nodup.getElem_inj_iff hn).mp (hu.trans hu'.symm)

theorem find_of_urls (hn : lb.urls.Nodup) {url : String} (h : lb.urls[i]? = some url) :
    lb.find url = some i := by
  obtain ⟨j, hf⟩ := find_isSome_of_urls h
  rw [hf, eq_of_find hn hf h]

/-- An outcome for another backend leaves the backend alone. -/
theorem success_other {url : String} (h : lb.find url ≠ some j) :
    (lb.success url).backends[j]? = lb.backends[j]? := by
  unfold success
  cases hf : lb.find url with
  | none => rfl
  | some i =>
    have hij : i ≠ j := fun he => h (by rw [hf, he])
    exact List.getElem?_modify_ne _ _ hij

theorem failure_other {url : String} (h : lb.find url ≠ some j) :
    (lb.failure url now).backends[j]? = lb.backends[j]? := by
  unfold failure
  cases hf : lb.find url with
  | none => rfl
  | some i =>
    have hij : i ≠ j := fun he => h (by rw [hf, he])
    exact List.getElem?_modify_ne _ _ hij

/-- A success is recorded for the backend that is found. -/
theorem success_found {url : String} (h : lb.find url = some j) {be : Backend} (hbe : lb.backends[j]? = some be) :
    (lb.success url).backends[j]? = some be.recordSuccess := by
  unfold success
  rw [h]
  show (lb.backends.modify j _)[j]? = _
  rw [List.getElem?_modify_eq, hbe]
  rfl

/-- A failure is recorded for the backend that is found. -/
theorem failure_found {url : String} (h : lb.find url = some j) {be : Backend} (hbe : lb.backends[j]? = some be) :
    (lb.failure url now).backends[j]? = some (be.recordFailure now) := by
  unfold failure
  rw [h]
  show (lb.backends.modify j _)[j]? = _
  rw [List.getElem?_modify_eq, hbe]
  rfl

theorem dropGuard_backend (i : Nat) {be : Backend} (hbe : lb.backends[j]? = some be) :
    (lb.dropGuard i).backends[j]? = some (if i = j then be.release else be) := by
  unfold dropGuard
  dsimp only
  rw [List.getElem?_modify, hbe]
  split <;> rfl

theorem success_circuitAt_other {url : String} (h : lb.find url ≠ some j) :
    circuitAt (lb.success url).backends j = circuitAt lb.backends j := by
  rw [circuitAt, success_other h, circuitAt]

/-- A success opens no circuit. -/
theorem success_circuitAt_closed {url : String} (h : circuitAt lb.backends j = false) :
    circuitAt (lb.success url).backends j = false := by
  by_cases hf : lb.find url = some j
  · obtain ⟨be, hbe⟩ := backend_of_find hf
    rw [circuitAt, success_found hf hbe]
    rfl
  · rw [success_circuitAt_other hf]; exact h

theorem failure_circuitAt_other {url : String} (h : lb.find url ≠ some j) :
    circuitAt (lb.failure url now).backends j = circuitAt lb.backends j := by
  rw [circuitAt, failure_other h, circuitAt]

/-- A failure closes no circuit. -/
theorem failure_circuitAt_open {url : String} (h : circuitAt lb.backends j = true) :
    circuitAt (lb.failure url now).backends j = true := by
  by_cases hf : lb.find url = some j
  · cases hb : lb.backends[j]? with
    | none => rw [circuitAt, hb] at h; cases h
    | some b =>
      rw [circuitAt, hb] at h
      replace h : b.circuitOpen = true := h
      rw [circuitAt, failure_found hf hb]
      simp [Backend.recordFailure, h]
  · rw [failure_circuitAt_other hf]; exact h

theorem dropGuard_circuitAt : circuitAt (lb.dropGuard i).backends j = circuitAt lb.backends j := by
  unfold dropGuard
  rw [circuitAt_modify]
  split <;> rfl

end LoadBalancer

end Curf
