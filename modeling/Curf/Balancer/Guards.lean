import Curf.Lib.Exec
import Curf.Balancer.Pick

/-!
# Guards and the least-connections strategy

`Guarded` is a load balancer with the `ConnectionGuard`s that are alive, each known
by the position of its backend. A guard comes from a `select` and is dropped once,
in any order. `active` counts the guards of a backend, so that the backend with the
fewest active requests is the one with the fewest guards.
-/

namespace Curf

open Lib

structure Guarded where
  lb : LoadBalancer
  /-- The positions of the backends of the live guards. -/
  guards : List Nat
  deriving DecidableEq

inductive GuardEvent where
  | select (ip : Option IpAddr) (now : UInt64)
  /-- A guard of the backend in position `i` is dropped. -/
  | drop (i : Nat)
  | success (url : String)
  | failure (url : String) (now : UInt64)

namespace Guarded

open LoadBalancer

def start (cfg : DomainConfig) : Guarded := ⟨.new cfg, []⟩

def step (s : Guarded) : GuardEvent → Option Guarded
  | .select ip now =>
    match s.lb.select ip now with
    | (none, lb) => some ⟨lb, s.guards⟩
    -- one reference too many aborts the program
    | (some (_, i), lb) => if s.guards.count i < maxGuards then some ⟨lb, i :: s.guards⟩ else none
  | .drop i => if i ∈ s.guards then some ⟨s.lb.dropGuard i, s.guards.erase i⟩ else none
  | .success url => some { s with lb := s.lb.success url }
  | .failure url now => some { s with lb := s.lb.failure url now }

/-- The live guards of the backend in position `i`. -/
def guardsOf (s : Guarded) (i : Nat) : Nat := s.guards.count i

/-- What an event can do, one case for each way through the code. -/
inductive Moves (s : Guarded) : GuardEvent → Guarded → Prop
  | unserved {ip : Option IpAddr} {now : UInt64} (hpick : s.lb.pick ip now = none) :
      Moves s (.select ip now) ⟨(s.lb.select ip now).2, s.guards⟩
  | selected {ip : Option IpAddr} {now : UInt64} {i : Nat} (hpick : s.lb.pick ip now = some i)
      (hfew : s.guards.count i < maxGuards) :
      Moves s (.select ip now) ⟨(s.lb.select ip now).2, i :: s.guards⟩
  | dropped {i : Nat} (hi : i ∈ s.guards) : Moves s (.drop i) ⟨s.lb.dropGuard i, s.guards.erase i⟩
  | succeeded {url : String} : Moves s (.success url) { s with lb := s.lb.success url }
  | failed {url : String} {now : UInt64} : Moves s (.failure url now) { s with lb := s.lb.failure url now }

theorem moves_of_step {s s' : Guarded} {e : GuardEvent} (hs : s.step e = some s') : Moves s e s' := by
  cases e with
  | select ip now =>
    simp only [step] at hs
    rw [select_eq] at hs
    cases hp : s.lb.pick ip now with
    | none =>
      rw [hp] at hs
      cases hs
      exact .unserved hp
    | some i =>
      rw [hp] at hs
      dsimp only [Option.map_some] at hs
      split at hs
      · rename_i hfew; cases hs; exact .selected hp hfew
      · cases hs
  | drop i =>
    simp only [step] at hs
    split at hs
    · rename_i hi; cases hs; exact .dropped hi
    · cases hs
  | success url => cases hs; exact .succeeded
  | failure url now => cases hs; exact .failed

variable {s s' : Guarded} {e : GuardEvent} {cfg : DomainConfig} {i : Nat}

/-! ## Counting guards -/

/-- `active` counts the live guards. -/
def Counts (s : Guarded) : Prop := ∀ i, activeAt s.lb.backends i = s.guardsOf i

theorem counts_start (cfg : DomainConfig) : Counts (start cfg) := activeAt_new cfg

/-- A guard is dropped from a count that is not zero. -/
theorem Counts.active_pos (h : Counts s) (hi : i ∈ s.guards) : 0 < activeAt s.lb.backends i := by
  rw [h i]
  exact List.count_pos_iff.mpr hi

/-- The count is below its end whenever a guard can be made. -/
theorem Counts.select (h : Counts s) {ip : Option IpAddr} {now : UInt64}
    (hfew : ∀ i, s.lb.pick ip now = some i → s.guardsOf i < maxGuards) (j : Nat) :
    activeAt (s.lb.select ip now).2.backends j =
      s.guardsOf j + if s.lb.pick ip now = some j then 1 else 0 := by
  have hlt := activeAt_lt s.lb.backends j
  rw [h j] at hlt
  rw [select_activeAt, h j, Nat.mod_eq_of_lt]
  split
  · rename_i hpick
    have := hfew j hpick
    unfold maxGuards at this
    omega
  · exact hlt

theorem Counts.step (h : Counts s) (hs : s.step e = some s') : Counts s' := by
  intro j
  cases moves_of_step hs with
  | unserved hpick => rw [h.select (by rw [hpick]; exact nofun), hpick]; rfl
  | @selected ip now i hpick hfew =>
    rw [h.select fun k hk => by rw [hpick] at hk; cases hk; exact hfew, hpick]
    show s.guards.count j + _ = (i :: s.guards).count j
    rw [List.count_cons]
    simp
  | @dropped i hi =>
    have hdrop := dropGuard_activeAt (j := j) (h.active_pos hi)
    have hj := h j
    show activeAt (s.lb.dropGuard i).backends j = (s.guards.erase i).count j
    rw [List.count_erase]
    unfold guardsOf at hj
    by_cases hij : i = j
    · subst hij; simp at hdrop ⊢; omega
    · simp [hij] at hdrop ⊢; omega
  | succeeded => rw [success_activeAt]; exact h j
  | failed => rw [failure_activeAt]; exact h j

theorem counts_of_run {es : List GuardEvent} (hrun : exec step (start cfg) es = some s) : Counts s :=
  exec_inv (fun _ _ _ h hs => h.step hs) (counts_start cfg) hrun

/-! ## What the events leave alone -/

/-- The events change neither the strategy nor the URLs. -/
theorem frame_step (hs : s.step e = some s') : s'.lb.strategy = s.lb.strategy ∧ s'.lb.urls = s.lb.urls := by
  cases moves_of_step hs with
  | unserved => exact ⟨select_strategy, select_urls ..⟩
  | selected => exact ⟨select_strategy, select_urls ..⟩
  | dropped => exact ⟨rfl, dropGuard_urls⟩
  | succeeded => exact ⟨success_strategy _, success_urls _⟩
  | failed => exact ⟨failure_strategy _, failure_urls _⟩

theorem frame_run {es : List GuardEvent} (hrun : exec step s es = some s') :
    s'.lb.strategy = s.lb.strategy ∧ s'.lb.urls = s.lb.urls :=
  exec_inv (I := fun m => m.lb.strategy = s.lb.strategy ∧ m.lb.urls = s.lb.urls)
    (fun _ _ _ h hs => ⟨(frame_step hs).1.trans h.1, (frame_step hs).2.trans h.2⟩) ⟨rfl, rfl⟩ hrun

/-! ## The strategy of the fewest guards -/

/-- At each `select` all backends are available, and no guard is dropped. -/
def AllUp (s : Guarded) : GuardEvent → Prop
  | .select _ now => ∀ i < s.lb.backends.length, AvailableAt s.lb.backends now i
  | .drop _ => False
  | .success _ | .failure _ _ => True

instance (s : Guarded) : ∀ e, Decidable (AllUp s e)
  | .select _ now => inferInstanceAs (Decidable (∀ i < s.lb.backends.length, AvailableAt s.lb.backends now i))
  | .drop _ => .isFalse id
  | .success _ | .failure _ _ => .isTrue trivial

/-- The strategy picks an available backend with the fewest guards of those available. -/
theorem Counts.pick_le (h : Counts s) (hlc : s.lb.strategy = .leastConnections) {ip : Option IpAddr}
    {now : UInt64} (hp : s.lb.pick ip now = some i) {j : Nat} (hj : AvailableAt s.lb.backends now j) :
    s.guardsOf i ≤ s.guardsOf j := by
  rw [← h i, ← h j]
  exact pick_least hlc hp hj

/-- No backend has two guards more than another. -/
def Level (n : Nat) (s : Guarded) : Prop := ∀ i < n, ∀ j < n, s.guardsOf i ≤ s.guardsOf j + 1

/-- One more guard for a backend that had the fewest. -/
theorem Level.cons {n : Nat} {lb : LoadBalancer} (h : Level n s) (hmin : ∀ j < n, s.guardsOf i ≤ s.guardsOf j) :
    Level n ⟨lb, i :: s.guards⟩ := by
  have hcons : ∀ j, guardsOf ⟨lb, i :: s.guards⟩ j = s.guardsOf j + if i = j then 1 else 0 := by
    intro j
    show (i :: s.guards).count j = _
    rw [List.count_cons]
    simp [guardsOf]
  intro j hj k hk
  have hjk := h j hj k hk
  have hmin := hmin k hk
  rw [hcons, hcons]
  by_cases hij : i = j
  · subst hij
    rw [if_pos rfl]
    omega
  · rw [if_neg hij]
    omega

theorem Level.step {n : Nat} (h : Level n s) (hc : Counts s) (hlc : s.lb.strategy = .leastConnections)
    (hn : s.lb.backends.length = n) (hup : AllUp s e) (hs : s.step e = some s') : Level n s' := by
  cases moves_of_step hs with
  | unserved => exact h
  | selected hpick => exact h.cons fun j hj => hc.pick_le hlc hpick (hup j (hn ▸ hj))
  | dropped => exact hup.elim
  | succeeded => exact h
  | failed => exact h

/-- **Least connections.** In every reachable state `active` is the number of live
guards, and `select` returns an available backend with the fewest of them. As long
as all backends are available and no guard is dropped, the guards are spread evenly. -/
theorem fewest_guards (hlc : cfg.loadBalance = .leastConnections) {es : List GuardEvent}
    (hrun : exec step (start cfg) es = some s) :
    (∀ i, activeAt s.lb.backends i = s.guardsOf i) ∧
      (∀ i ∈ s.guards, 0 < activeAt s.lb.backends i) ∧
      (∀ ip now url i, (s.lb.select ip now).1 = some (url, i) →
        AvailableAt s.lb.backends now i ∧
          ∀ j, AvailableAt s.lb.backends now j → s.guardsOf i ≤ s.guardsOf j) ∧
      (Along step AllUp (start cfg) es →
        ∀ i < cfg.backends.length, ∀ j < cfg.backends.length, s.guardsOf i ≤ s.guardsOf j + 1) := by
  have hcounts := counts_of_run hrun
  have hstrategy : s.lb.strategy = .leastConnections := (frame_run hrun).1.trans hlc
  refine ⟨hcounts, fun i hi => hcounts.active_pos hi, fun ip now url i hsel => ?_, fun hup => ?_⟩
  · rw [select_fst] at hsel
    obtain ⟨i', hpick, he⟩ := Option.map_eq_some_iff.mp hsel
    obtain ⟨-, rfl⟩ := Prod.mk.inj he
    exact ⟨pick_available hpick, fun j hj => hcounts.pick_le hstrategy hpick hj⟩
  · have hlength : (start cfg).lb.urls.length = cfg.backends.length := by
      show (LoadBalancer.new cfg).urls.length = _
      rw [urls_new]
    have hstart : Level cfg.backends.length (start cfg) := fun i _ j _ => by simp [guardsOf, start]
    refine (exec_inv_along (P := AllUp) (I := fun m => Counts m ∧ m.lb.strategy = .leastConnections ∧
      m.lb.urls.length = cfg.backends.length ∧ Level cfg.backends.length m) ?_
      ⟨counts_start cfg, hlc, hlength, hstart⟩ hup hrun).2.2.2
    rintro m e m' ⟨hc, hlc, hn, hlevel⟩ hup hs
    obtain ⟨hstr, hurls⟩ := frame_step hs
    have hlen : m.lb.backends.length = cfg.backends.length := (List.length_map _).symm.trans hn
    exact ⟨hc.step hs, hstr.trans hlc, (congrArg List.length hurls).trans hn, hlevel.step hc hlc hlen hup hs⟩

/-- Three selects on two backends. -/
theorem fewest_guards_of_two :
    ∃ s, exec step (start { backends := ["http://a", "http://b"], loadBalance := .leastConnections })
        (List.replicate 3 (.select none 0)) = some s ∧
      s.guardsOf 0 ≤ s.guardsOf 1 + 1 := by
  obtain ⟨s, hs⟩ : ∃ s, exec step
    (start { backends := ["http://a", "http://b"], loadBalance := .leastConnections })
    (List.replicate 3 (.select none 0)) = some s := ⟨_, rfl⟩
  exact ⟨s, hs, (fewest_guards rfl hs).2.2.2 (by decide) 0 (by decide) 1 (by decide)⟩

end Guarded

end Curf
