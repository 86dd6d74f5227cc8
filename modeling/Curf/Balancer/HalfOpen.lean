import Curf.Lib.Exec
import Curf.Balancer.Pick

/-!
# The half-open phase

When the time of an open circuit is up, `is_healthy` lets one probe through: the
comment beside it says so, and the module's constants speak of a circuit that
half-opens. What the code does is close the circuit and clear the failures, so
that nothing is left of the phase. A `Monitor` remembers it instead, next to the
load balancer, and `OneProbe` says what it asks of each `select`.

`oneProbe_iff_diverted` shows that a run obeys exactly when other backends happen
to attract every `select` that falls in a backend's half-open phase.
-/

namespace Curf

open Lib

inductive BalancerCall where
  | select (ip : Option IpAddr) (now : UInt64)
  | success (url : String)
  | failure (url : String) (now : UInt64)
  deriving DecidableEq, Repr

/-- What is known of a backend since its last success. -/
inductive Phase where
  | closed
  /-- The circuit has opened. No outcome has been recorded since, and no `select`
  has returned the backend. -/
  | opened
  /-- A `select` has returned the backend, and no outcome has been recorded since. -/
  | probing
  /-- The outcome after the opening was a failure at `time`. -/
  | failed (time : UInt64)
  deriving DecidableEq, Repr

/-- A load balancer, the latest clock reading and the phase of each backend. -/
structure Monitor where
  lb : LoadBalancer
  clock : UInt64
  phase : Nat → Phase

namespace Phase

/-- The backend is returned. -/
def returned : Phase → Phase
  | .opened => .probing
  | ph => ph

/-- A failure is recorded at `now` and leaves the circuit open or not. -/
def afterFailure (circuitOpen : Bool) (now : UInt64) : Phase → Phase
  | ph =>
    if circuitOpen then .opened
    else
      match ph with
      | .opened | .probing => .failed now
      | .closed => .closed
      | .failed time => .failed time

/-- The phases in which a `select` at `now` has to leave the backend alone. -/
def OnProbation (now : UInt64) : Phase → Prop
  | .closed | .opened => False
  | .probing => True
  | .failed time => now.toNat < time.toNat + 30

end Phase

namespace Monitor

open LoadBalancer

def start (cfg : DomainConfig) : Monitor := ⟨.new cfg, 0, fun _ => .closed⟩

def setPhase (w : Monitor) (i : Nat) (ph : Phase) : Nat → Phase :=
  fun j => if j = i then ph else w.phase j

def afterSelect (w : Monitor) (ip : Option IpAddr) (now : UInt64) : Monitor where
  lb := (w.lb.select ip now).2
  clock := now
  phase := match (w.lb.select ip now).1 with
    | none => w.phase
    | some (_, i) => w.setPhase i (w.phase i).returned

def afterSuccess (w : Monitor) (url : String) : Monitor where
  lb := w.lb.success url
  clock := w.clock
  phase := match w.lb.find url with
    | none => w.phase
    | some i => w.setPhase i .closed

def afterFailure (w : Monitor) (url : String) (now : UInt64) : Monitor where
  lb := w.lb.failure url now
  clock := now
  phase := match w.lb.find url with
    | none => w.phase
    | some i =>
      w.setPhase i ((w.phase i).afterFailure (circuitAt (w.lb.failure url now).backends i) now)

def step (w : Monitor) : BalancerCall → Option Monitor
  | .select ip now => if now < w.clock then none else some (w.afterSelect ip now)
  | .success url => some (w.afterSuccess url)
  | .failure url now => if now < w.clock then none else some (w.afterFailure url now)

/-- Half-open means one probe: no `select` returns a backend on probation. -/
def OneProbe (w : Monitor) : BalancerCall → Prop
  | .select ip now => ∀ url i, (w.lb.select ip now).1 = some (url, i) → ¬ (w.phase i).OnProbation now
  | .success _ | .failure _ _ => True

/-- Every backend on probation is passed over for another one. -/
def Diverted (w : Monitor) : BalancerCall → Prop
  | .select ip now => ∀ i, i < w.lb.backends.length → (w.phase i).OnProbation now →
      w.lb.PassedOver ip now i
  | .success _ | .failure _ _ => True

/-- A backend on probation has its circuit closed. -/
def Forgets (w : Monitor) : Prop :=
  ∀ i now, (w.phase i).OnProbation now → circuitAt w.lb.backends i = false

theorem forgets_start (cfg : DomainConfig) : Forgets (start cfg) := fun _ _ h => h.elim

variable {w w' : Monitor} {i : Nat}

theorem setPhase_self (w : Monitor) (i : Nat) (ph : Phase) : w.setPhase i ph i = ph := if_pos rfl

theorem setPhase_other (w : Monitor) {i j : Nat} (ph : Phase) (h : j ≠ i) :
    w.setPhase i ph j = w.phase j := if_neg h

theorem Forgets.select (h : Forgets w) (ip : Option IpAddr) (now : UInt64) :
    Forgets (w.afterSelect ip now) := by
  intro j t hj
  simp only [afterSelect, select_fst] at hj ⊢
  cases hp : w.lb.pick ip now with
  | none =>
    simp only [hp, Option.map_none] at hj
    exact select_circuitAt_closed (h j t hj)
  | some i =>
    simp only [hp, Option.map_some] at hj
    by_cases hji : j = i
    · subst hji; exact select_circuitAt_pick hp
    · rw [setPhase_other w _ hji] at hj
      exact select_circuitAt_closed (h j t hj)

theorem Forgets.success (h : Forgets w) (url : String) : Forgets (w.afterSuccess url) := by
  intro j t hj
  simp only [afterSuccess, LoadBalancer.success] at hj ⊢
  cases hf : w.lb.find url with
  | none =>
    simp only [hf] at hj
    exact h j t hj
  | some i =>
    simp only [hf] at hj
    show circuitAt (w.lb.backends.modify i .recordSuccess) j = false
    by_cases hji : j = i
    · subst hji; rw [setPhase_self] at hj; exact hj.elim
    · rw [setPhase_other w _ hji] at hj
      rw [circuitAt_modify, if_neg (Ne.symm hji)]
      exact h j t hj

theorem Forgets.failure (h : Forgets w) (url : String) (now : UInt64) :
    Forgets (w.afterFailure url now) := by
  intro j t hj
  cases hf : w.lb.find url with
  | none =>
    simp only [afterFailure, LoadBalancer.failure, hf] at hj ⊢
    exact h j t hj
  | some i =>
    simp only [afterFailure, hf] at hj
    by_cases hji : j = i
    · subst hji
      rw [setPhase_self] at hj
      cases hc : circuitAt (w.lb.failure url now).backends j with
      | false => exact hc
      | true => rw [hc] at hj; exact hj.elim
    · rw [setPhase_other w _ hji] at hj
      simp only [afterFailure, LoadBalancer.failure, hf]
      rw [circuitAt_modify, if_neg (Ne.symm hji)]
      exact h j t hj

/-- The breaker keeps no trace of the half-open phase. -/
theorem Forgets.step (h : Forgets w) {c : BalancerCall} (hs : w.step c = some w') : Forgets w' := by
  cases c with
  | select ip now =>
    simp only [Monitor.step] at hs
    split at hs
    · cases hs
    · cases hs; exact h.select ip now
  | success url => cases hs; exact h.success url
  | failure url now =>
    simp only [Monitor.step] at hs
    split at hs
    · cases hs
    · cases hs; exact h.failure url now

theorem Forgets.oneProbe_iff (h : Forgets w) (c : BalancerCall) : w.OneProbe c ↔ w.Diverted c := by
  cases c with
  | select ip now =>
    simp only [OneProbe, Diverted, select_fst, Option.map_eq_some_iff, Prod.mk.injEq]
    constructor
    · intro hone i hi hprob
      rw [← pick_ne_iff_passedOver (availableAt_of_closed hi (h i now hprob))]
      exact fun hp => hone _ i ⟨i, hp, rfl, rfl⟩ hprob
    · rintro hdiv url i ⟨j, hp, -, rfl⟩ hprob
      have ha := pick_available hp
      exact (pick_ne_iff_passedOver ha).mpr (hdiv j ha.lt hprob) hp
  | success url => exact Iff.rfl
  | failure url now => exact Iff.rfl

/-- **When half-open means one probe.** A run returns no backend on probation
exactly when at every `select` made then, the strategy has another available
backend ahead of each backend on probation, or does not come by it. -/
theorem oneProbe_iff_diverted (cfg : DomainConfig) (cs : List BalancerCall) :
    Along step OneProbe (start cfg) cs ↔ Along step Diverted (start cfg) cs :=
  along_congr (I := Forgets) (fun _ _ _ h hs => h.step hs) (fun _ c h => h.oneProbe_iff c)
    (forgets_start cfg)

/-- **Nothing limits the probes.** A single backend fails five times at second 0
and is returned twice at second 30. -/
theorem probe_twice :
    ¬ ∀ (cfg : DomainConfig) (cs : List BalancerCall) (w : Monitor), cfg.backends.Nodup →
      exec step (start cfg) cs = some w → Along step OneProbe (start cfg) cs := by
  intro h
  have hall := h { backends := ["http://a"] }
    (List.replicate 5 (.failure "http://a" 0) ++ [.select none 30, .select none 30]) _ (by decide) rfl
  obtain ⟨w, hw⟩ : ∃ w, exec step (start { backends := ["http://a"] })
    (List.replicate 5 (.failure "http://a" 0)) = some w := ⟨_, rfl⟩
  obtain ⟨-, hprobe, hsecond⟩ := Along.append hw hall
  cases hw
  exact (hsecond _ rfl).1 "http://a" 0 (by decide) trivial

end Monitor

end Curf
