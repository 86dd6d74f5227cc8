import Curf.Lib.Cyclic
import Curf.Lib.Exec
import Curf.Balancer.Pick

/-!
# Round-robin over the available backends

`Rotation` is a load balancer with the answers its `select` calls have given and
the number of cursor increments they made. Unavailable backends cost an increment
each, so the cursor runs ahead of the number of calls. What ties the two together
is `InTurn`: the number of calls is the number of cursor values gone by that stand
for an available backend.
-/

namespace Curf

open Lib Lib.Cyclic

structure Rotation where
  lb : LoadBalancer
  /-- The positions returned, in order. -/
  answers : List (Option Nat)
  /-- Increments of the cursor. -/
  drawn : Nat
  deriving DecidableEq

inductive RotationEvent where
  | select (ip : Option IpAddr) (now : UInt64)
  | success (url : String)
  | failure (url : String) (now : UInt64)
  | dropGuard (i : Nat)

namespace Rotation

open LoadBalancer

def start (cfg : DomainConfig) : Rotation := ⟨.new cfg, [], 0⟩

/-- The cursor increments of `roundRobinFrom`. -/
def drawsFrom (now : UInt64) : Nat → LoadBalancer → Nat
  | 0, _ => 0
  | k + 1, lb =>
    let asked := ask lb.backends (lb.cursor.toNat % lb.backends.length) now
    if asked.1 then 1
    else drawsFrom now k { lb with backends := asked.2, cursor := lb.cursor + 1 } + 1

def step (s : Rotation) : RotationEvent → Option Rotation
  | .select ip now =>
    let r := s.lb.select ip now
    some ⟨r.2, s.answers ++ [r.1.map (·.2)], s.drawn + drawsFrom now s.lb.backends.length s.lb⟩
  | .success url => some { s with lb := s.lb.success url }
  | .failure url now => some { s with lb := s.lb.failure url now }
  | .dropGuard i => some { s with lb := s.lb.dropGuard i }

variable {n : Nat} {p : Nat → Prop}

/-- At each call the available backends are those in the positions `p`. -/
def Fixed (p : Nat → Prop) (s : Rotation) : RotationEvent → Prop
  | .select _ now => ∀ i < s.lb.backends.length, AvailableAt s.lb.backends now i ↔ p i
  | _ => True

instance [DecidablePred p] (s : Rotation) : ∀ e, Decidable (Fixed p s e)
  | .select _ now =>
    inferInstanceAs (Decidable (∀ i < s.lb.backends.length, AvailableAt s.lb.backends now i ↔ p i))
  | .success _ | .failure _ _ | .dropGuard _ => .isTrue trivial

variable {lb : LoadBalancer} {now : UInt64} {x : Nat}

/-- The loop ends at the first cursor value whose backend is available. -/
theorem roundRobinFrom_first_hit (now : UInt64) (k : Nat) (hn : lb.backends.length = n) (hpos : 0 < n)
    (hfixed : ∀ i < n, AvailableAt lb.backends now i ↔ p i)
    (hwrap : lb.cursor.toNat + drawsFrom now k lb < 2 ^ 64) (hcx : lb.cursor.toNat ≤ x)
    (hxk : x < lb.cursor.toNat + k) (hx : Hit n p x)
    (hfirst : ∀ y, lb.cursor.toNat ≤ y → y < x → ¬ Hit n p y) :
    (roundRobinFrom now k lb).1 = some (x % n) ∧
      (roundRobinFrom now k lb).2.cursor.toNat = x + 1 ∧
      lb.cursor.toNat + drawsFrom now k lb = x + 1 := by
  induction k generalizing lb with
  | zero => omega
  | succ k ih =>
    rw [drawsFrom] at hwrap ⊢
    rw [roundRobinFrom]
    simp only [ask_fst, decide_eq_true_eq, hn] at hwrap ⊢
    have hask := hfixed _ (Nat.mod_lt lb.cursor.toNat hpos)
    have hnext : lb.cursor.toNat + 1 < 2 ^ 64 → (lb.cursor + 1).toNat = lb.cursor.toNat + 1 := by
      intro h
      rw [UInt64.toNat_add, UInt64.toNat_one]
      exact Nat.mod_eq_of_lt h
    by_cases hup : AvailableAt lb.backends now (lb.cursor.toNat % n)
    · have he : x = lb.cursor.toNat := by
        by_contra hne
        exact hfirst _ (Nat.le_refl _) (by omega) (hask.mp hup)
      rw [if_pos hup] at hwrap
      rw [if_pos hup, if_pos hup, he]
      exact ⟨rfl, hnext hwrap, rfl⟩
    · have hne : x ≠ lb.cursor.toNat := by
        rintro rfl
        exact hup (hask.mpr hx)
      rw [if_neg hup] at hwrap
      simp only [if_neg hup]
      rw [ask_snd_of_not_available hup] at hwrap ⊢
      have hc := hnext (by omega)
      obtain ⟨h1, h2, h3⟩ := @ih { lb with cursor := lb.cursor + 1 } hn hfixed
        (by dsimp only; omega) (by dsimp only; omega) (by dsimp only; omega)
        (fun y hy => hfirst y (by dsimp only at hy; omega))
      dsimp only at h3
      exact ⟨h1, h2, by omega⟩

/-- A `select` of the round-robin strategy does to the cursor what the loop does. -/
theorem select_cursor {ip : Option IpAddr} (hs : lb.strategy = .roundRobin) (hne : lb.backends ≠ []) :
    (lb.select ip now).2.cursor = (roundRobinFrom now lb.backends.length lb).2.cursor := by
  unfold select choose roundRobin
  rw [hs, if_neg (by simpa using hne)]
  dsimp only
  split <;> rename_i h <;> rw [h]

/-- The calls and the cursor are in step. -/
structure InTurn (n : Nat) (p : Nat → Prop) [DecidablePred p] (s : Rotation) : Prop where
  strategy_eq : s.lb.strategy = .roundRobin
  length_eq : s.lb.backends.length = n
  cursor_eq : s.lb.cursor.toNat = s.drawn
  count_eq : Nat.count (Hit n p) s.drawn = s.answers.length
  answers_eq : s.answers = turns (hits n p) s.answers.length

variable {s s' : Rotation} [DecidablePred p]

theorem inTurn_start {cfg : DomainConfig} (hs : cfg.loadBalance = .roundRobin) :
    InTurn cfg.backends.length p (start cfg) :=
  ⟨hs, List.length_map .., rfl, Nat.count_zero _, rfl⟩

/-- What replaces the backends and nothing else leaves the turns alone. -/
theorem InTurn.frame (h : InTurn n p s) {lb : LoadBalancer} (hs : lb.strategy = s.lb.strategy)
    (hlen : lb.backends.length = s.lb.backends.length) (hc : lb.cursor = s.lb.cursor) :
    InTurn n p { s with lb } :=
  ⟨hs.trans h.strategy_eq, hlen.trans h.length_eq, by rw [← h.cursor_eq, ← hc], h.count_eq, h.answers_eq⟩

/-- A call goes on to the first cursor value that hits: the next one in turn. -/
theorem InTurn.select (h : InTurn n p s) (hp : ∃ a < n, p a) {ip : Option IpAddr} {now : UInt64}
    (hfixed : Fixed p s (.select ip now)) (hs : s.step (.select ip now) = some s')
    (hdrawn : s'.drawn < 2 ^ 64) : InTurn n p s' := by
  have hpos : 0 < n := Nat.zero_lt_of_lt hp.choose_spec.1
  have hlen := h.length_eq
  have hcur := h.cursor_eq
  have hne : s.lb.backends ≠ [] := by
    rintro he
    rw [he] at hlen
    exact absurd hlen hpos.ne
  obtain ⟨x, hcx, hxk, hx, hfirst⟩ := exists_first_hit hp s.lb.cursor.toNat
  cases hs
  obtain ⟨hfst, hnext, hdraws⟩ := roundRobinFrom_first_hit now n hlen hpos
    (by simpa only [Fixed, hlen] using hfixed) (by rw [hlen] at hdrawn; rw [hcur]; exact hdrawn) hcx hxk hx hfirst
  have hcount := count_first_hit hcx hfirst
  rw [hcur, h.count_eq] at hcount
  have hdrawn' : s.drawn + drawsFrom now s.lb.backends.length s.lb = x + 1 := by rw [hlen, ← hcur]; exact hdraws
  have hnth : Nat.nth (Hit n p) s.answers.length = x := by rw [← hcount]; exact Nat.nth_count hx
  have hpick : s.lb.pick ip now = some (x % n) := by
    rw [← choose_fst, choose, h.strategy_eq]
    dsimp only [roundRobin]
    rw [hlen]
    exact hfst
  refine ⟨select_strategy.trans h.strategy_eq, (select_length ..).trans hlen, ?_, ?_, ?_⟩
  · show (s.lb.select ip now).2.cursor.toNat = s.drawn + drawsFrom now s.lb.backends.length s.lb
    rw [select_cursor h.strategy_eq hne, hlen, hnext, ← hdrawn', hlen]
  · show Nat.count (Hit n p) (s.drawn + drawsFrom now s.lb.backends.length s.lb) = _
    rw [hdrawn', Nat.count_succ, if_pos hx, hcount, List.length_append]
    rfl
  · have hhits : hits n p ≠ [] := by
      obtain ⟨a, ha⟩ := hp
      exact List.ne_nil_of_mem (mem_hits.mpr ha)
    have hturn := (nth_hit hhits s.answers.length).1
    rw [hnth] at hturn
    simp only [List.length_append, List.length_singleton]
    rw [turns_succ, ← h.answers_eq, hturn, select_fst, hpick]
    rfl

/-- Increments are never taken back. -/
theorem drawn_le_of_step {e : RotationEvent} (hs : s.step e = some s') : s.drawn ≤ s'.drawn := by
  cases e <;> cases hs
  · exact Nat.le_add_right ..
  · exact Nat.le_refl _
  · exact Nat.le_refl _
  · exact Nat.le_refl _

theorem InTurn.step (h : InTurn n p s) (hp : ∃ a < n, p a) {e : RotationEvent} (hfixed : Fixed p s e)
    (hs : s.step e = some s') (hdrawn : s'.drawn < 2 ^ 64) : InTurn n p s' := by
  cases e with
  | select ip now => exact h.select hp hfixed hs hdrawn
  | success url =>
    cases hs
    refine h.frame (success_strategy _) ?_ ?_ <;> unfold LoadBalancer.success <;> split <;> simp
  | failure url now =>
    cases hs
    refine h.frame (failure_strategy _) ?_ ?_ <;> unfold LoadBalancer.failure <;> split <;> simp
  | dropGuard i => cases hs; exact h.frame rfl (List.length_modify ..) rfl

/-- **Round-robin is fair.** Let the same backends be available at every call, at
least one of them, and the cursor not wrap. Then the calls go round the available
backends in the order of the configuration, so no other is ever returned, and none
is returned more than once more than another. -/
theorem round_robin_fair {cfg : DomainConfig} (hrr : cfg.loadBalance = .roundRobin)
    (hp : ∃ a < cfg.backends.length, p a) {es : List RotationEvent} {s : Rotation}
    (hrun : exec step (start cfg) es = some s) (hfixed : Along step (Fixed p) (start cfg) es)
    (hdrawn : s.drawn < 2 ^ 64) :
    s.answers = turns (hits cfg.backends.length p) s.answers.length ∧
      (∀ o ∈ s.answers, ∃ i < cfg.backends.length, p i ∧ o = some i) ∧
      ∀ i j, i < cfg.backends.length → j < cfg.backends.length → p i → p j →
        s.answers.count (some i) ≤ s.answers.count (some j) + 1 := by
  have hturn : InTurn cfg.backends.length p s := by
    refine exec_inv_along (I := fun s => s.drawn < 2 ^ 64 → InTurn _ p s) ?_ (fun _ => inTurn_start hrr)
      hfixed hrun hdrawn
    intro s e s' h hP hs hlt
    exact (h (Nat.lt_of_le_of_lt (drawn_le_of_step hs) hlt)).step hp hP hs hlt
  have hhits : hits cfg.backends.length p ≠ [] := by
    obtain ⟨a, ha⟩ := hp
    exact List.ne_nil_of_mem (mem_hits.mpr ha)
  refine ⟨hturn.answers_eq, fun o ho => ?_, fun i j hi hj hpi hpj => ?_⟩
  · rw [hturn.answers_eq] at ho
    obtain ⟨i, hi, rfl⟩ := exists_of_mem_turns hhits ho
    obtain ⟨hlt, hpi⟩ := mem_hits.mp hi
    exact ⟨i, hlt, hpi, rfl⟩
  · rw [hturn.answers_eq]
    exact count_turns_le nodup_hits (mem_hits.mpr ⟨hi, hpi⟩) (mem_hits.mpr ⟨hj, hpj⟩)

/-- The middle one of three backends is down. -/
theorem round_robin_fair_two_of_three :
    ∃ s, exec step (start { backends := ["http://a", "http://b", "http://c"] })
        (List.replicate 5 (.failure "http://b" 100) ++ List.replicate 5 (.select none 110)) = some s ∧
      s.answers.count (some 2) ≤ s.answers.count (some 0) + 1 := by
  obtain ⟨s, hs⟩ : ∃ s, exec step (start { backends := ["http://a", "http://b", "http://c"] })
    (List.replicate 5 (.failure "http://b" 100) ++ List.replicate 5 (.select none 110)) = some s := ⟨_, rfl⟩
  have hdrawn : s.drawn < 2 ^ 64 := by
    cases hs; decide
  refine ⟨s, hs, (round_robin_fair (p := (· ≠ 1)) rfl ⟨0, by decide⟩ hs ?_ hdrawn).2.2 2 0 ?_ ?_ ?_ ?_⟩ <;>
    decide

end Rotation

end Curf
