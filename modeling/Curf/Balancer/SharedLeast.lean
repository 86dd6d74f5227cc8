import Curf.Lib.Exec
import Curf.Lib.StaleMin
import Curf.Balancer.Pick

/-!
# Concurrent `least_connections` calls

A call goes through the backends in order. It asks each whether it is healthy and, if
so, loads its count of active requests; `min_by_key` keeps the first of the least
counts. `select` then adds one to the count of the backend kept, and the guard takes it
off again. Each of these is an atomic step, and the steps of different calls, the
outcomes recorded and the clock interleave in any order: a count may have changed by
the time a call acts on it.

`active_counts_guards` says that the counts are nevertheless exact, and
`active_within_calls` how far the counts of two backends get apart.
-/

namespace Curf

open Lib

/-- A `select` with `least_connections`, and the guard it returns. `best` is the backend
kept so far, with the count read. -/
inductive LeastCall where
  /-- About to ask the backend in position `i`. -/
  | asking (i : Nat) (best : Option (Nat × Nat))
  /-- About to load the count of the backend in position `i`, which is healthy. -/
  | loading (i : Nat) (best : Option (Nat × Nat))
  /-- The backend has been chosen and its count not yet raised. -/
  | acquiring (best : Nat × Nat)
  /-- The guard is alive. -/
  | guarded (i : Nat)
  | dropped (i : Nat)
  /-- No backend was healthy. -/
  | unserved
  deriving DecidableEq, Repr

/-- A load balancer with `least_connections` shared by calls, at the time `clock`. -/
structure SharedLeast where
  backends : List Backend
  clock : UInt64
  calls : List LeastCall
  deriving DecidableEq, Repr

inductive LeastEvent where
  | call
  | isHealthy (c : Nat)
  | load (c : Nat)
  | acquire (c : Nat)
  | dropGuard (c : Nat)
  | success (i : Nat)
  | failure (i : Nat)
  | tick (now : UInt64)
  deriving DecidableEq, Repr

namespace SharedLeast

open LoadBalancer

def start (cfg : DomainConfig) : SharedLeast := ⟨cfg.backends.map .new, 0, []⟩

/-- How a call goes on after the backend in position `i` of `n`. -/
def nextBackend (n i : Nat) (best : Option (Nat × Nat)) : LeastCall :=
  if i + 1 < n then .asking (i + 1) best
  else
    match best with
    | none => .unserved
    | some best => .acquiring best

/-- `min_by_key` keeps the earlier of two equal counts. -/
def keepLess (best : Option (Nat × Nat)) (i v : Nat) : Nat × Nat :=
  match best with
  | none => (i, v)
  | some (j, w) => if v < w then (i, v) else (j, w)

/-- The live guards of the backend in position `i`. -/
def guardsOf (s : SharedLeast) (i : Nat) : Nat := s.calls.countP (· = .guarded i)

def step (s : SharedLeast) : LeastEvent → Option SharedLeast
  | .call =>
    -- `select` returns at once when there are no backends
    if s.backends.isEmpty then none else some { s with calls := s.calls ++ [.asking 0 none] }
  | .isHealthy c =>
    match s.calls[c]? with
    | some (.asking i best) =>
      let asked := ask s.backends i s.clock
      let next := if asked.1 then .loading i best else nextBackend s.backends.length i best
      some { s with backends := asked.2, calls := s.calls.set c next }
    | _ => none
  | .load c =>
    match s.calls[c]? with
    | some (.loading i best) =>
      let best := keepLess best i (activeAt s.backends i)
      some { s with calls := s.calls.set c (nextBackend s.backends.length i (some best)) }
    | _ => none
  | .acquire c =>
    match s.calls[c]? with
    | some (.acquiring (i, _)) =>
      -- one reference too many aborts the program
      if s.guardsOf i < maxGuards then
        some { s with backends := s.backends.modify i .acquire, calls := s.calls.set c (.guarded i) }
      else none
    | _ => none
  | .dropGuard c =>
    match s.calls[c]? with
    | some (.guarded i) =>
      some { s with backends := s.backends.modify i .release, calls := s.calls.set c (.dropped i) }
    | _ => none
  | .success i => some { s with backends := s.backends.modify i .recordSuccess }
  | .failure i => some { s with backends := s.backends.modify i (·.recordFailure s.clock) }
  | .tick now => if now < s.clock then none else some { s with clock := now }

/-- What an event can do, one case for each way through the code. -/
inductive Moves (s : SharedLeast) : LeastEvent → SharedLeast → Prop
  | called (hne : s.backends.isEmpty = false) : Moves s .call { s with calls := s.calls ++ [.asking 0 none] }
  | healthy {c i : Nat} {best : Option (Nat × Nat)} (hc : s.calls[c]? = some (.asking i best))
      (hup : AvailableAt s.backends s.clock i) :
      Moves s (.isHealthy c)
        { s with backends := (ask s.backends i s.clock).2, calls := s.calls.set c (.loading i best) }
  | unhealthy {c i : Nat} {best : Option (Nat × Nat)} (hc : s.calls[c]? = some (.asking i best))
      (hdown : ¬ AvailableAt s.backends s.clock i) :
      Moves s (.isHealthy c)
        { s with
          backends := (ask s.backends i s.clock).2
          calls := s.calls.set c (nextBackend s.backends.length i best) }
  | loaded {c i : Nat} {best : Option (Nat × Nat)} (hc : s.calls[c]? = some (.loading i best)) :
      Moves s (.load c)
        { s with
          calls := s.calls.set c
            (nextBackend s.backends.length i (some (keepLess best i (activeAt s.backends i)))) }
  | acquired {c i v : Nat} (hc : s.calls[c]? = some (.acquiring (i, v))) (hfew : s.guardsOf i < maxGuards) :
      Moves s (.acquire c)
        { s with backends := s.backends.modify i .acquire, calls := s.calls.set c (.guarded i) }
  | released {c i : Nat} (hc : s.calls[c]? = some (.guarded i)) :
      Moves s (.dropGuard c)
        { s with backends := s.backends.modify i .release, calls := s.calls.set c (.dropped i) }
  | succeeded {i : Nat} : Moves s (.success i) { s with backends := s.backends.modify i .recordSuccess }
  | failed {i : Nat} :
      Moves s (.failure i) { s with backends := s.backends.modify i (·.recordFailure s.clock) }
  | ticked {now : UInt64} (hnow : ¬ now < s.clock) : Moves s (.tick now) { s with clock := now }

theorem moves_of_step {s s' : SharedLeast} {e : LeastEvent} (hs : s.step e = some s') : Moves s e s' := by
  cases e with
  | call =>
    simp only [step] at hs
    split at hs
    · cases hs
    · rename_i hne; cases hs; exact .called (by simpa using hne)
  | isHealthy c =>
    simp only [step] at hs
    split at hs
    · rename_i i best hc
      cases hs
      by_cases hup : AvailableAt s.backends s.clock i
      · rw [if_pos (by rw [ask_fst]; exact decide_eq_true hup)]
        exact .healthy hc hup
      · rw [if_neg (by rw [ask_fst]; simpa using hup)]
        exact .unhealthy hc hup
    · cases hs
  | load c =>
    simp only [step] at hs
    split at hs
    · rename_i hc; cases hs; exact .loaded hc
    · cases hs
  | acquire c =>
    simp only [step] at hs
    split at hs
    · rename_i hc
      split at hs
      · rename_i hfew; cases hs; exact .acquired hc hfew
      · cases hs
    · cases hs
  | dropGuard c =>
    simp only [step] at hs
    split at hs
    · rename_i hc; cases hs; exact .released hc
    · cases hs
  | success i => cases hs; exact .succeeded
  | failure i => cases hs; exact .failed
  | tick now =>
    simp only [step] at hs
    split at hs
    · cases hs
    · rename_i hnow; cases hs; exact .ticked hnow

variable {s s' : SharedLeast} {e : LeastEvent} {cfg : DomainConfig} {i j k : Nat}

/-! ## Exact counts -/

/-- The positions a call holds are among the `n` backends. -/
def InRange (n : Nat) : LeastCall → Prop
  | .asking i best | .loading i best => i < n ∧ ∀ r ∈ best, r.1 < n
  | .acquiring best => best.1 < n
  | .guarded i | .dropped i => i < n
  | .unserved => True

theorem InRange.nextBackend {n i : Nat} {best : Option (Nat × Nat)} (h : ∀ r ∈ best, r.1 < n) :
    InRange n (nextBackend n i best) := by
  unfold SharedLeast.nextBackend
  split
  · rename_i hlt; exact ⟨hlt, h⟩
  · cases best with
    | none => trivial
    | some r => exact h r rfl

theorem keepLess_fst {n i v : Nat} {best : Option (Nat × Nat)} (hi : i < n) (h : ∀ r ∈ best, r.1 < n) :
    (keepLess best i v).1 < n := by
  unfold keepLess
  cases best with
  | none => exact hi
  | some r =>
    dsimp only
    split
    · exact hi
    · exact h r rfl

/-- `active` counts the live guards. -/
structure Exact (s : SharedLeast) : Prop where
  inRange : ∀ call ∈ s.calls, InRange s.backends.length call
  active : ∀ i, activeAt s.backends i = s.guardsOf i

theorem exact_start (cfg : DomainConfig) : Exact (start cfg) := ⟨nofun, activeAt_new cfg⟩

/-- Raising the count of a backend there is. -/
theorem acquire_activeAt {bs : List Backend} (hi : i < bs.length) (hfew : activeAt bs i < maxGuards) :
    activeAt (bs.modify i .acquire) j = activeAt bs j + if i = j then 1 else 0 := by
  rw [activeAt_modify]
  by_cases hij : i = j
  · subst hij
    simp only [activeAt, List.getElem?_eq_getElem hi, maxGuards, if_true, Option.map_some, Option.getD_some,
      Backend.acquire, UInt64.toNat_add, UInt64.toNat_one] at hfew ⊢
    omega
  · simp [hij]

/-- Taking one off a count above zero. -/
theorem release_activeAt {bs : List Backend} (h : 0 < activeAt bs i) :
    activeAt (bs.modify i .release) j + (if i = j then 1 else 0) = activeAt bs j := by
  have hdrop : 0 < activeAt (⟨bs, .leastConnections, 0⟩ : LoadBalancer).backends i := h
  exact dropGuard_activeAt hdrop

/-- The query changes no count. -/
theorem ask_activeAt {bs : List Backend} {now : UInt64} : activeAt (ask bs i now).2 j = activeAt bs j :=
  activeAt_modify_same fun _ => Backend.isHealthy_active

theorem ask_length {bs : List Backend} {now : UInt64} : (ask bs i now).2.length = bs.length :=
  List.length_modify ..

theorem Exact.call (h : Exact s) {c : Nat} {x : LeastCall} (hc : s.calls[c]? = some x) :
    InRange s.backends.length x := h.inRange x (List.mem_of_getElem? hc)

/-- No call moves, and no count changes. -/
theorem Exact.frame {bs : List Backend} (h : Exact s) (hlen : bs.length = s.backends.length)
    (hactive : ∀ i, activeAt bs i = activeAt s.backends i) : Exact { s with backends := bs } := by
  refine ⟨fun call hcall => ?_, fun i => (hactive i).trans (h.active i)⟩
  rw [hlen]
  exact h.inRange call hcall

/-- Call `c` moves on, and the counts change by what it gives up and gets. -/
theorem Exact.set {bs : List Backend} {c : Nat} {x x' : LeastCall} (h : Exact s) (hc : s.calls[c]? = some x)
    (hlen : bs.length = s.backends.length) (hx' : InRange s.backends.length x')
    (hactive : ∀ i, activeAt bs i + (if x = .guarded i then 1 else 0) =
      activeAt s.backends i + if x' = .guarded i then 1 else 0) :
    Exact ⟨bs, s.clock, s.calls.set c x'⟩ := by
  refine ⟨fun call hcall => ?_, fun i => ?_⟩
  · rw [hlen]
    rcases List.mem_or_eq_of_mem_set hcall with hmem | rfl
    · exact h.inRange call hmem
    · exact hx'
  · have hcount := countP_set_add (p := fun y => y = .guarded i) hc x'
    have hi := hactive i
    rw [h.active i] at hi
    simp only [decide_eq_true_eq] at hcount
    unfold guardsOf at hi ⊢
    dsimp only at hcount ⊢
    omega

/-- Call `c` moves on without a guard. -/
theorem Exact.choosing {bs : List Backend} {c : Nat} {x x' : LeastCall} (h : Exact s)
    (hc : s.calls[c]? = some x) (hlen : bs.length = s.backends.length)
    (hbs : ∀ i, activeAt bs i = activeAt s.backends i) (hx : ∀ i, x ≠ .guarded i)
    (hx' : InRange s.backends.length x') (hx'' : ∀ i, x' ≠ .guarded i) :
    Exact ⟨bs, s.clock, s.calls.set c x'⟩ :=
  h.set hc hlen hx' fun i => by rw [hbs, if_neg (hx i), if_neg (hx'' i)]

theorem nextBackend_ne_guarded (n m : Nat) (best : Option (Nat × Nat)) (i : Nat) :
    nextBackend n m best ≠ .guarded i := by
  unfold nextBackend
  split
  · simp
  · cases best <;> simp

/-- A call that holds a guard counts for its backend. -/
theorem Exact.active_pos (h : Exact s) {c : Nat} (hc : s.calls[c]? = some (.guarded i)) :
    0 < activeAt s.backends i := by
  rw [h.active]
  exact List.countP_pos_iff.mpr ⟨_, List.mem_of_getElem? hc, by simp⟩

theorem Exact.step (h : Exact s) (hs : s.step e = some s') : Exact s' := by
  cases moves_of_step hs with
  | called hne =>
    have hlt : 0 < s.backends.length := List.length_pos_iff.mpr (by simpa using hne)
    refine ⟨fun call hcall => ?_, fun i => ?_⟩
    · rcases List.mem_append.mp hcall with hmem | hmem
      · exact h.inRange call hmem
      · rw [List.mem_singleton.mp hmem]; exact ⟨hlt, nofun⟩
    · rw [h.active i, guardsOf, guardsOf, List.countP_append, List.countP_singleton]
      simp
  | healthy hc =>
    have hi := h.call hc
    exact h.choosing hc ask_length (fun _ => ask_activeAt) (by simp) hi (by simp)
  | unhealthy hc =>
    exact h.choosing hc ask_length (fun _ => ask_activeAt) (by simp) (.nextBackend (h.call hc).2)
      (nextBackend_ne_guarded _ _ _)
  | loaded hc =>
    obtain ⟨hi, hbest⟩ := h.call hc
    refine h.choosing hc rfl (fun _ => rfl) (by simp) (.nextBackend ?_) (nextBackend_ne_guarded _ _ _)
    intro r hr
    rw [← Option.some.inj hr]
    exact keepLess_fst hi hbest
  | acquired hc hfew =>
    have hi := h.call hc
    refine h.set hc (List.length_modify ..) hi fun j => ?_
    rw [acquire_activeAt hi (by rwa [h.active])]
    simp
  | @released c i hc =>
    have hi := h.call hc
    refine h.set hc (List.length_modify ..) hi fun j => ?_
    simpa using release_activeAt (j := j) (h.active_pos hc)
  | succeeded => exact h.frame (List.length_modify ..) fun _ => activeAt_modify_same fun _ => rfl
  | failed => exact h.frame (List.length_modify ..) fun _ => activeAt_modify_same fun _ => rfl
  | ticked => exact ⟨h.inRange, h.active⟩

/-- **Exact counts.** However the calls interleave, the active count of each backend is
the number of its live guards. -/
theorem active_counts_guards {es : List LeastEvent} (hrun : exec step (start cfg) es = some s) (i : Nat) :
    activeAt s.backends i = s.guardsOf i :=
  (exec_inv (fun _ _ _ h hs => Exact.step h hs) (exact_start cfg) hrun).active i

/-- Two guards of one backend, of which one is dropped while a third call is looking. -/
theorem active_counts_guards_three :
    ∃ s, exec step (start { backends := ["http://a"] })
        [.call, .call, .isHealthy 0, .isHealthy 1, .load 0, .load 1, .acquire 1, .call, .acquire 0, .isHealthy 2,
          .dropGuard 1, .load 2] = some s ∧ activeAt s.backends 0 = s.guardsOf 0 ∧ s.guardsOf 0 = 1 := by
  obtain ⟨s, hs⟩ : ∃ s, exec step (start { backends := ["http://a"] })
    [.call, .call, .isHealthy 0, .isHealthy 1, .load 0, .load 1, .acquire 1, .call, .acquire 0, .isHealthy 2,
      .dropGuard 1, .load 2] = some s := ⟨_, rfl⟩
  exact ⟨s, hs, active_counts_guards hs 0, by cases hs; rfl⟩

/-! ## How far the counts get apart -/

/-- The call has been given a guard of the backend in position `j`. -/
def took (j : Nat) (x : LeastCall) : Bool := x = .guarded j || x = .dropped j

/-- The guards of the backend in position `j` handed out so far. -/
def given (s : SharedLeast) (j : Nat) : Nat := s.calls.countP (took j)

/-- The call is looking for a backend. -/
def choosing : LeastCall → Bool
  | .asking .. | .loading .. | .acquiring _ => true
  | .guarded _ | .dropped _ | .unserved => false

/-- The backend a call keeps, with the count it has read. -/
def candidate : LeastCall → Option (Nat × Nat)
  | .asking _ best | .loading _ best => best
  | .acquiring best => some best
  | .guarded _ | .dropped _ | .unserved => none

/-- The backend that call `c` is about to ask. -/
def asks (s : SharedLeast) (c : Nat) : Option Nat :=
  match s.calls[c]? with
  | some (.asking i _) => some i
  | _ => none

/-- If the event asks the backend in position `j`, that answers to be healthy. -/
def Answers (j : Nat) (s : SharedLeast) : LeastEvent → Prop
  | .isHealthy c => s.asks c = some j → AvailableAt s.backends s.clock j
  | _ => True

instance (j : Nat) (s : SharedLeast) : ∀ e, Decidable (Answers j s e)
  | .isHealthy c => inferInstanceAs (Decidable (s.asks c = some j → _))
  | .call | .load _ | .acquire _ | .dropGuard _ | .success _ | .failure _ | .tick _ => .isTrue trivial

/-- At most `k` calls are looking for a backend at once. -/
def AtMost (k : Nat) (s : SharedLeast) : Prop := s.calls.countP choosing ≤ k

instance (k : Nat) : DecidablePred (AtMost k) := fun s => inferInstanceAs (Decidable (s.calls.countP choosing ≤ k))

/-- A call that has come by the backend in position `j` keeps a count of `top` at most,
and does not end without a backend. -/
def KeepsTo (j top : Nat) : LeastCall → Prop
  | .asking m best | .loading m best => j < m → ∃ r ∈ best, r.2 ≤ top
  | .acquiring best => best.2 ≤ top
  | .guarded _ | .dropped _ => True
  | .unserved => False

theorem KeepsTo.mono {top top' : Nat} {x : LeastCall} (h : KeepsTo j top x) (htop : top ≤ top') : KeepsTo j top' x := by
  cases x with
  | asking m best | loading m best =>
    intro hj
    obtain ⟨r, hr, hle⟩ := h hj
    exact ⟨r, hr, hle.trans htop⟩
  | acquiring best => exact Nat.le_trans h htop
  | guarded i | dropped i => trivial
  | unserved => exact h

theorem keepsTo_nextBackend {n m top : Nat} {best : Option (Nat × Nat)} (hj : j < n)
    (h : j < m + 1 → ∃ r ∈ best, r.2 ≤ top) : KeepsTo j top (nextBackend n m best) := by
  unfold nextBackend
  split
  · exact h
  · obtain ⟨r, hr, hle⟩ := h (by omega)
    rw [Option.mem_def.mp hr]
    exact hle

/-- The count kept is none above the one kept before or the one just read. -/
theorem keepLess_snd {m v top : Nat} {best : Option (Nat × Nat)}
    (h : v ≤ top ∨ ∃ r ∈ best, r.2 ≤ top) : (keepLess best m v).2 ≤ top := by
  unfold keepLess
  cases best with
  | none => simpa using h
  | some r =>
    dsimp only
    have hmin : v ≤ top ∨ r.2 ≤ top := by simpa using h
    split
    · show v ≤ top; omega
    · show r.2 ≤ top; omega

theorem candidate_nextBackend (n m : Nat) (best : Option (Nat × Nat)) :
    candidate (nextBackend n m best) = best := by
  unfold nextBackend
  split
  · rfl
  · cases best <;> rfl

theorem choosing_of_candidate {x : LeastCall} (h : (candidate x).isSome = true) : choosing x = true := by
  cases x <;> first | rfl | cases h

/-- What the calls have read of the backend in position `j`, and what they make of it. -/
structure Near (j k : Nat) (s : SharedLeast) : Prop where
  exact : Exact s
  lt : j < s.backends.length
  keeps : ∀ call ∈ s.calls, KeepsTo j (s.given j) call
  close : Close candidate k (activeAt s.backends) (s.given j) s.calls

/-- Live guards have been handed out. -/
theorem guardsOf_le_given (s : SharedLeast) (j : Nat) : s.guardsOf j ≤ s.given j :=
  List.countP_mono_left fun x _ hx => by rw [of_decide_eq_true hx]; simp [took]

theorem near_start (k : Nat) (hj : j < cfg.backends.length) : Near j k (start cfg) := by
  refine ⟨exact_start cfg, by simpa [start] using hj, nofun, fun i t _ => ?_⟩
  rw [(exact_start cfg).active i]
  show 0 - t + 0 ≤ k
  omega

section

variable {bs : List Backend} {c : Nat} {x x' : LeastCall}

/-- No guard is unhanded. -/
theorem given_le_set (bs : List Backend) (hc : s.calls[c]? = some x) (h : took j x = true → took j x' = true) :
    s.given j ≤ given ⟨bs, s.clock, s.calls.set c x'⟩ j := by
  have hcount := countP_set_add (p := took j) hc x'
  have hle : (if took j x then 1 else 0) ≤ if took j x' then 1 else 0 := by
    by_cases hx : took j x = true
    · rw [if_pos (h hx)]; split <;> omega
    · rw [if_neg hx]; exact Nat.zero_le _
  unfold given
  dsimp only
  omega

/-- Call `c` moves on. -/
theorem Near.set (h : Near j k s) (hc : s.calls[c]? = some x) (hexact : Exact ⟨bs, s.clock, s.calls.set c x'⟩)
    (hlen : bs.length = s.backends.length) (htook : took j x = true → took j x' = true)
    (hkeeps : KeepsTo j (s.given j) x')
    (hclose : Close candidate k (activeAt bs) (given ⟨bs, s.clock, s.calls.set c x'⟩ j) (s.calls.set c x')) :
    Near j k ⟨bs, s.clock, s.calls.set c x'⟩ := by
  have hle := given_le_set bs hc htook
  refine ⟨hexact, hlen ▸ h.lt, fun call hcall => ?_, hclose⟩
  rcases List.mem_or_eq_of_mem_set hcall with hmem | rfl
  · exact (h.keeps call hmem).mono hle
  · exact hkeeps.mono hle

/-- Call `c` goes on with the candidate it has, and no count rises. -/
theorem Near.keep (h : Near j k s) (hc : s.calls[c]? = some x) (hexact : Exact ⟨bs, s.clock, s.calls.set c x'⟩)
    (hlen : bs.length = s.backends.length) (htook : took j x = true → took j x' = true)
    (hkeeps : KeepsTo j (s.given j) x') (hcand : candidate x' = candidate x)
    (hactive : ∀ i, activeAt bs i ≤ activeAt s.backends i) : Near j k ⟨bs, s.clock, s.calls.set c x'⟩ :=
  h.set hc hexact hlen htook hkeeps ((h.close.keep hc (.inl hcand)).mono hactive (given_le_set _ hc htook))

theorem Near.call (h : Near j k s) (hc : s.calls[c]? = some x) : KeepsTo j (s.given j) x :=
  h.keeps x (List.mem_of_getElem? hc)

/-- No call moves, and no count changes. -/
theorem Near.frame {now : UInt64} (h : Near j k s) (hexact : Exact ⟨bs, now, s.calls⟩)
    (hlen : bs.length = s.backends.length) (hactive : ∀ i, activeAt bs i = activeAt s.backends i) :
    Near j k ⟨bs, now, s.calls⟩ :=
  ⟨hexact, hlen ▸ h.lt, h.keeps, h.close.mono (fun i => Nat.le_of_eq (hactive i)) (Nat.le_refl _)⟩

/-- Call `c` has read the count of the backend in position `i`. -/
theorem Near.loaded {best : Option (Nat × Nat)} (h : Near j k s) (hk : AtMost k s)
    (hc : s.calls[c]? = some (.loading i best))
    (hx' : x' = nextBackend s.backends.length i (some (keepLess best i (activeAt s.backends i))))
    (hexact : Exact { s with calls := s.calls.set c x' }) : Near j k { s with calls := s.calls.set c x' } := by
  have hcand : candidate x' = some (keepLess best i (activeAt s.backends i)) := by
    rw [hx', candidate_nextBackend]
  have hkeeps : KeepsTo j (s.given j) x' := by
    rw [hx']
    refine keepsTo_nextBackend h.lt fun hj => ⟨_, rfl, keepLess_snd ?_⟩
    by_cases hij : i = j
    · subst hij
      rw [h.exact.active]
      exact .inl (s.guardsOf_le_given i)
    · exact .inr (h.call hc (by omega))
  have hread : candidate x' = some (i, activeAt s.backends i) ∨ candidate x' = best := by
    rw [hcand]
    unfold keepLess
    cases best with
    | none => exact .inl rfl
    | some r =>
      dsimp only
      split
      · exact .inl rfl
      · exact .inr rfl
  have htook : took j (.loading i best) = true → took j x' = true := by simp [took]
  rcases hread with hread | hread
  · have hbusy := countP_set_add (p := choosing) hc x'
    have hsome : (s.calls.set c x').countP (candidate · |>.isSome) ≤ (s.calls.set c x').countP choosing :=
      List.countP_mono_left fun y _ hy => choosing_of_candidate hy
    have hone : (if choosing x' = true then 1 else 0) ≤ 1 := by split <;> omega
    rw [if_pos (show choosing (.loading i best) = true from rfl)] at hbusy
    unfold AtMost at hk
    have hclose := h.close.read hc hread (by omega)
    exact h.set hc hexact rfl htook hkeeps (hclose.mono (fun _ => Nat.le_refl _) (given_le_set _ hc htook))
  · exact h.keep hc hexact rfl htook hkeeps hread fun _ => Nat.le_refl _

end

theorem Near.step (h : Near j k s) (hk : AtMost k s) (hanswers : Answers j s e) (hs : s.step e = some s') :
    Near j k s' := by
  have hexact := h.exact.step hs
  cases moves_of_step hs with
  | called =>
    have hgiven : given { s with calls := s.calls ++ [.asking 0 none] } j = s.given j := by
      simp [given, took]
    refine ⟨hexact, h.lt, fun call hcall => ?_, ?_⟩
    · rw [hgiven]
      rcases List.mem_append.mp hcall with hmem | hmem
      · exact h.keeps call hmem
      · rw [List.mem_singleton.mp hmem]; exact nofun
    · rw [hgiven]; exact h.close.append rfl
  | healthy hc =>
    have hseen := h.call hc
    exact h.keep hc hexact ask_length (by simp [took]) hseen rfl fun _ => Nat.le_of_eq ask_activeAt
  | @unhealthy c i best hc hdown =>
    have hij : i ≠ j := by
      rintro rfl
      exact hdown (hanswers (by simp [asks, hc]))
    have hseen := h.call hc
    refine h.keep hc hexact ask_length (by simp [took]) (keepsTo_nextBackend h.lt fun hj => ?_)
      (candidate_nextBackend ..) fun _ => Nat.le_of_eq ask_activeAt
    exact hseen (by omega)
  | loaded hc => exact h.loaded hk hc rfl hexact
  | @acquired c i v hc hfew =>
    have hi := h.exact.call hc
    have hv := h.call hc
    have htook : took j (.acquiring (i, v)) = true → took j (.guarded i) = true := by simp [took]
    exact h.set hc hexact (List.length_modify ..) htook trivial
      (h.close.put hc rfl rfl hv (fun _ => acquire_activeAt hi (by rwa [h.exact.active])) (given_le_set _ hc htook))
  | @released c i hc =>
    have htook : took j (.guarded i) = true → took j (.dropped i) = true := by simp [took]
    refine h.keep hc hexact (List.length_modify ..) htook trivial rfl fun j => ?_
    have := release_activeAt (j := j) (h.exact.active_pos hc)
    omega
  | succeeded => exact h.frame hexact (List.length_modify ..) fun _ => activeAt_modify_same fun _ => rfl
  | failed => exact h.frame hexact (List.length_modify ..) fun _ => activeAt_modify_same fun _ => rfl
  | ticked => exact h.frame hexact rfl fun _ => rfl

/-- **Old counts mislead by one request a call.** Let no more than `k` calls look for a
backend at once, and let a backend answer to be healthy whenever it is asked. However the
calls interleave, none ends without a backend, and no backend has more than `k` live guards
above the number that this one has been given. -/
theorem active_within_calls {es : List LeastEvent} (hj : j < cfg.backends.length)
    (hk : Throughout step (AtMost k) (start cfg) es) (hanswers : Along step (Answers j) (start cfg) es)
    (hrun : exec step (start cfg) es = some s) :
    (∀ call ∈ s.calls, call ≠ .unserved) ∧ ∀ i, s.guardsOf i ≤ s.given j + k := by
  have hnear : Near j k s := exec_inv_along (P := fun s e => AtMost k s ∧ Answers j s e)
    (fun _ _ _ h hP hs => h.step hP.1 hP.2 hs) (near_start k hj) (hk.along.and hanswers) hrun
  constructor
  · rintro call hcall rfl
    exact hnear.keeps _ hcall
  · intro i
    rw [← hnear.exact.active]
    exact hnear.close.le i

/-- Two calls read both counts before either acts, and both take the first backend: the
bound is met. -/
theorem active_within_calls_two :
    ∃ s, exec step (start { backends := ["http://a", "http://b"] })
        [.call, .call, .isHealthy 0, .load 0, .isHealthy 1, .load 1, .isHealthy 0, .load 0, .isHealthy 1, .load 1,
          .acquire 0, .acquire 1] = some s ∧ s.guardsOf 0 = 2 ∧ s.given 1 = 0 ∧ s.guardsOf 0 ≤ s.given 1 + 2 := by
  obtain ⟨s, hs⟩ : ∃ s, exec step (start { backends := ["http://a", "http://b"] })
    [.call, .call, .isHealthy 0, .load 0, .isHealthy 1, .load 1, .isHealthy 0, .load 0, .isHealthy 1, .load 1,
      .acquire 0, .acquire 1] = some s := ⟨_, rfl⟩
  have hle := (active_within_calls (j := 1) (k := 2) (by decide) (by decide) (by decide) hs).2 0
  exact ⟨s, hs, by cases hs; rfl, by cases hs; rfl, hle⟩

end SharedLeast

end Curf
