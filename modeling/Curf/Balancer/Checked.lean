import Curf.Balancer.Pick
import Curf.Crates

/-!
# The indices of `select`

`selectChecked` is `select` with its remainders and its indices checked, as the
compiled code checks them: a remainder by zero or an index out of bounds ends the
process. `selectChecked_eq` says that the checks never fail.
-/

namespace Curf

open Lib

/-- `a % n`. -/
def checkedRem (a n : Nat) : Except Panic Nat := if n = 0 then .error .divisionByZero else .ok (a % n)

namespace LoadBalancer

/-- `backends[i].is_healthy()`, checked. -/
def askChecked (bs : List Backend) (i : Nat) (now : UInt64) : Except Panic (Bool × List Backend) :=
  if i < bs.length then .ok (ask bs i now) else .error .indexOutOfBounds

def roundRobinFromChecked (now : UInt64) : Nat → LoadBalancer → Except Panic (Option Nat × LoadBalancer)
  | 0, lb => .ok (none, lb)
  | k + 1, lb =>
    match checkedRem lb.cursor.toNat lb.backends.length with
    | .error e => .error e
    | .ok idx =>
      match askChecked lb.backends idx now with
      | .error e => .error e
      | .ok asked =>
        let lb := { lb with backends := asked.2, cursor := lb.cursor + 1 }
        if asked.1 then .ok (some idx, lb) else roundRobinFromChecked now k lb

/-- The loop of `ip_hash` over the offsets `is`. -/
def hashFromChecked (now : UInt64) (hash : Nat) : List Nat → List Backend → Except Panic (Option Nat × List Backend)
  | [], bs => .ok (none, bs)
  | i :: is, bs =>
    match checkedRem (hash + i) bs.length with
    | .error e => .error e
    | .ok idx =>
      match askChecked bs idx now with
      | .error e => .error e
      | .ok asked => if asked.1 then .ok (some idx, asked.2) else hashFromChecked now hash is asked.2

def chooseChecked (lb : LoadBalancer) (ip : Option IpAddr) (now : UInt64) :
    Except Panic (Option Nat × LoadBalancer) :=
  match lb.strategy with
  | .roundRobin => roundRobinFromChecked now lb.backends.length lb
  | .leastConnections => .ok (lb.leastConnections now)
  | .ipHash =>
    match hashFromChecked now (addrHash ip) (List.range lb.backends.length) lb.backends with
    | .error e => .error e
    | .ok (r, backends) => .ok (r, { lb with backends })

def selectChecked (lb : LoadBalancer) (clientIp : Option IpAddr) (now : UInt64) :
    Except Panic (Option (String × Nat) × LoadBalancer) :=
  if lb.backends.isEmpty then .ok (none, lb)
  else
    match lb.chooseChecked clientIp now with
    | .error e => .error e
    | .ok (none, lb) => .ok (none, lb)
    | .ok (some i, lb) =>
      .ok (some (lb.urlAt i, i), { lb with backends := lb.backends.modify i .acquire })

variable {lb : LoadBalancer} {bs : List Backend} {now : UInt64}

theorem checkedRem_eq {n : Nat} (a : Nat) (hn : n ≠ 0) : checkedRem a n = .ok (a % n) := if_neg hn

theorem askChecked_eq (a : Nat) (hne : bs ≠ []) :
    askChecked bs (a % bs.length) now = .ok (ask bs (a % bs.length) now) :=
  if_pos (Nat.mod_lt a (List.length_pos_iff.mpr hne))

theorem ask_ne_nil (i : Nat) (hne : bs ≠ []) : (ask bs i now).2 ≠ [] := by
  rw [← List.length_pos_iff] at hne ⊢
  rwa [ask, List.length_modify]

theorem roundRobinFromChecked_eq (k : Nat) (hne : lb.backends ≠ []) :
    roundRobinFromChecked now k lb = .ok (roundRobinFrom now k lb) := by
  induction k generalizing lb with
  | zero => rfl
  | succ k ih =>
    have hlen : lb.backends.length ≠ 0 := fun h => hne (List.length_eq_zero_iff.mp h)
    rw [roundRobinFromChecked, checkedRem_eq _ hlen, roundRobinFrom]
    dsimp only
    rw [askChecked_eq _ hne]
    dsimp only
    rw [ih (ask_ne_nil _ hne)]
    split <;> rfl

theorem hashFromChecked_eq {n : Nat} (hash : Nat) (is : List Nat) (hlen : bs.length = n) (hn : n ≠ 0) :
    hashFromChecked now hash is bs = .ok (walk now (is.map fun i => (hash + i) % n) bs) := by
  induction is generalizing bs with
  | nil => rfl
  | cons i is ih =>
    have hne : bs ≠ [] := by
      rintro rfl
      exact hn hlen.symm
    subst hlen
    have hasked : (ask bs ((hash + i) % bs.length) now).2.length = bs.length := List.length_modify ..
    rw [hashFromChecked, checkedRem_eq _ hn, List.map_cons, walk]
    dsimp only
    rw [askChecked_eq _ hne]
    dsimp only
    rw [ih hasked]
    split <;> rfl

theorem chooseChecked_eq (ip : Option IpAddr) (hne : lb.backends ≠ []) :
    lb.chooseChecked ip now = .ok (lb.choose ip now) := by
  unfold chooseChecked choose
  cases hs : lb.strategy with
  | roundRobin => exact roundRobinFromChecked_eq _ hne
  | leastConnections => rfl
  | ipHash =>
    dsimp only
    rw [hashFromChecked_eq _ _ rfl fun h => hne (List.length_eq_zero_iff.mp h), ipHash, hs]
    rfl

/-- **No remainder by zero and no index out of bounds**, whatever the backends, their
state and the cursor. -/
theorem selectChecked_eq (lb : LoadBalancer) (ip : Option IpAddr) (now : UInt64) :
    lb.selectChecked ip now = .ok (lb.select ip now) := by
  unfold selectChecked select
  by_cases he : lb.backends.isEmpty = true
  · rw [if_pos he, if_pos he]
  · rw [if_neg he, if_neg he, chooseChecked_eq ip fun h => he (List.isEmpty_iff.mpr h)]
    obtain ⟨r, lb'⟩ := lb.choose ip now
    cases r <;> rfl

end LoadBalancer

end Curf
