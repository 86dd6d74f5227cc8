import Curf.Lib.Exec
import Curf.Balancer.Backend
import Mathlib.Logic.Function.Iterate

/-!
# Concurrent calls on a breaker

`is_healthy`, `record_failure` and `record_success` are sequences of atomic operations
on the fields of a backend, with readings of the wall clock between them. Calls
interleave in any order, and the clock answers what it likes.

`is_healthy` subtracts the time of the last failure from its own reading in 64 bits, and
closes the circuit some steps after it has loaded that time. `elapsed_sound_timely` says
when the difference is what it stands for and no circuit is closed early, by the time of
the last failure as it is stored when the circuit is closed.
-/

namespace Curf

open Lib

/-- A call on a breaker, by the operation it comes to next. -/
inductive BreakerThread where
  /-- `is_healthy` loads `circuit_open`. -/
  | checking
  /-- It has found the circuit open and reads the clock. -/
  | reading
  /-- It loads `last_failure`. -/
  | loading (now : UInt64)
  /-- The difference of the reading `now` and the `last` loaded was enough: it stores
  `circuit_open`. -/
  | closing (now last : UInt64)
  /-- It stores `failures`. -/
  | clearing
  /-- `record_failure` adds to `failures`. -/
  | counting
  /-- It has counted up to `failures` and reads the clock. -/
  | stamping (failures : UInt64)
  /-- It stores `last_failure`. -/
  | storing (failures now : UInt64)
  /-- It stores `circuit_open`. -/
  | opening
  /-- `record_success` stores `failures`. -/
  | forgiving
  /-- It stores `circuit_open`. -/
  | restoring
  | returned (healthy : Bool)
  | done
  deriving DecidableEq, Repr

/-- A backend shared by calls. -/
structure SharedBreaker where
  backend : Backend
  /-- The latest clock reading. -/
  clock : UInt64
  calls : List BreakerThread
  deriving DecidableEq, Repr

inductive ClockEvent where
  | isHealthy
  | recordFailure
  | recordSuccess
  /-- Call `c` reads the clock. -/
  | unixNow (c : Nat) (now : UInt64)
  /-- Call `c` goes on by one atomic operation. -/
  | go (c : Nat)
  deriving DecidableEq, Repr

namespace BreakerThread

/-- The next operation of a call: what becomes of it and of the backend. -/
def go (b : Backend) : BreakerThread → Option (BreakerThread × Backend)
  | .checking => some (if b.circuitOpen then .reading else .returned true, b)
  | .loading now =>
    some (if cbResetSecs ≤ now - b.lastFailure then .closing now b.lastFailure else .returned false, b)
  | .closing _ _ => some (.clearing, { b with circuitOpen := false })
  | .clearing => some (.returned true, { b with failures := 0 })
  | .counting => some (.stamping (b.failures + 1), { b with failures := b.failures + 1 })
  | .storing f now => some (if cbThreshold ≤ f then .opening else .done, { b with lastFailure := now })
  | .opening => some (.done, { b with circuitOpen := true })
  | .forgiving => some (.restoring, { b with failures := 0 })
  | .restoring => some (.done, { b with circuitOpen := false })
  | .reading | .stamping _ | .returned _ | .done => none

/-- A call that reads the clock. -/
def unixNow (now : UInt64) : BreakerThread → Option BreakerThread
  | .reading => some (.loading now)
  | .stamping f => some (.storing f now)
  | _ => none

end BreakerThread

namespace SharedBreaker

def start (url : String) : SharedBreaker := ⟨.new url, 0, []⟩

def step (s : SharedBreaker) : ClockEvent → Option SharedBreaker
  | .isHealthy => some { s with calls := s.calls ++ [.checking] }
  | .recordFailure => some { s with calls := s.calls ++ [.counting] }
  | .recordSuccess => some { s with calls := s.calls ++ [.forgiving] }
  | .unixNow c now =>
    (s.calls[c]?.bind (·.unixNow now)).map fun call => { s with clock := now, calls := s.calls.set c call }
  | .go c =>
    (s.calls[c]?.bind (·.go s.backend)).map fun r => { s with backend := r.2, calls := s.calls.set c r.1 }

/-! ## A call alone -/

/-- **Alone**, the steps of `is_healthy` do what the function does. -/
theorem isHealthy_alone (b : Backend) (clock now : UInt64) :
    ∃ es s, exec step ⟨b, clock, [.checking]⟩ es = some s ∧ s.backend = (b.isHealthy now).2 ∧
      s.calls = [.returned (b.isHealthy now).1] := by
  unfold Backend.isHealthy
  by_cases ho : b.circuitOpen = true
  · rw [if_neg (by simp [ho])]
    by_cases hup : cbResetSecs ≤ now - b.lastFailure
    · rw [if_pos hup]
      refine ⟨[.go 0, .unixNow 0 now, .go 0, .go 0, .go 0], ⟨_, now, _⟩, ?_, rfl, rfl⟩
      simp [exec, step, BreakerThread.go, BreakerThread.unixNow, ho, hup]
    · rw [if_neg hup]
      refine ⟨[.go 0, .unixNow 0 now, .go 0], ⟨_, now, _⟩, ?_, rfl, rfl⟩
      simp [exec, step, BreakerThread.go, BreakerThread.unixNow, ho, hup]
  · rw [Bool.not_eq_true] at ho
    rw [if_pos ho]
    refine ⟨[.go 0], ⟨b, clock, _⟩, ?_, rfl, rfl⟩
    simp [exec, step, BreakerThread.go, ho]

/-- And those of `record_failure`. -/
theorem recordFailure_alone (b : Backend) (clock now : UInt64) :
    ∃ es s, exec step ⟨b, clock, [.counting]⟩ es = some s ∧ s.backend = b.recordFailure now ∧
      s.calls = [.done] := by
  unfold Backend.recordFailure
  by_cases hf : cbThreshold ≤ b.failures + 1
  · rw [if_pos hf]
    refine ⟨[.go 0, .unixNow 0 now, .go 0, .go 0], ⟨_, now, _⟩, ?_, rfl, rfl⟩
    simp [exec, step, BreakerThread.go, BreakerThread.unixNow, hf]
  · rw [if_neg hf]
    refine ⟨[.go 0, .unixNow 0 now, .go 0], ⟨_, now, _⟩, ?_, rfl, rfl⟩
    simp [exec, step, BreakerThread.go, BreakerThread.unixNow, hf]

/-- And those of `record_success`. -/
theorem recordSuccess_alone (b : Backend) (clock : UInt64) :
    ∃ es s, exec step ⟨b, clock, [.forgiving]⟩ es = some s ∧ s.backend = b.recordSuccess ∧ s.calls = [.done] :=
  ⟨[.go 0, .go 0], ⟨_, clock, _⟩, rfl, rfl, rfl⟩

/-- A failure recorded while other calls are in progress. -/
theorem recordFailure_among (s : SharedBreaker) (now : UInt64) :
    ∃ es, exec step s es = some ⟨s.backend.recordFailure now, now, s.calls ++ [.done]⟩ := by
  unfold Backend.recordFailure
  by_cases hf : cbThreshold ≤ s.backend.failures + 1
  · rw [if_pos hf]
    refine ⟨[.recordFailure, .go s.calls.length, .unixNow s.calls.length now, .go s.calls.length,
      .go s.calls.length], ?_⟩
    simp [exec, step, BreakerThread.go, BreakerThread.unixNow, hf]
  · rw [if_neg hf]
    refine ⟨[.recordFailure, .go s.calls.length, .unixNow s.calls.length now, .go s.calls.length], ?_⟩
    simp [exec, step, BreakerThread.go, BreakerThread.unixNow, hf]

/-- And a success. -/
theorem recordSuccess_among (s : SharedBreaker) :
    ∃ es, exec step s es = some ⟨s.backend.recordSuccess, s.clock, s.calls ++ [.done]⟩ := by
  refine ⟨[.recordSuccess, .go s.calls.length, .go s.calls.length], ?_⟩
  simp [exec, step, BreakerThread.go, Backend.recordSuccess]

theorem recordFailures_among (s : SharedBreaker) (now : UInt64) (k : Nat) : ∃ es s', exec step s es = some s' ∧
    s'.backend = (fun b => b.recordFailure now)^[k] s.backend ∧ s.calls <+: s'.calls := by
  induction k with
  | zero => exact ⟨[], s, rfl, rfl, List.prefix_rfl⟩
  | succ k ih =>
    obtain ⟨es, m, hm, hb, hcalls⟩ := ih
    obtain ⟨fs, hfs⟩ := recordFailure_among m now
    refine ⟨es ++ fs, _, exec_append.mpr ⟨m, hm, hfs⟩, ?_, hcalls.trans (List.prefix_append _ _)⟩
    rw [Function.iterate_succ_apply', ← hb]

/-- **The circuit can always be opened**, whatever the calls in progress are at: five
failures in a row do it. -/
theorem exists_opened (s : SharedBreaker) (now : UInt64) : ∃ es s', exec step s es = some s' ∧
    s'.backend.circuitOpen = true ∧ s'.backend.lastFailure = now ∧ s.calls <+: s'.calls := by
  obtain ⟨es, hes⟩ := recordSuccess_among s
  obtain ⟨fs, s', hfs, hb, hcalls⟩ := recordFailures_among ⟨s.backend.recordSuccess, s.clock, s.calls ++ [.done]⟩ now 5
  refine ⟨es ++ fs, s', exec_append.mpr ⟨_, hes, hfs⟩, ?_, ?_, (List.prefix_append _ _).trans hcalls⟩
  · rw [hb]; rfl
  · rw [hb]; rfl

/-! ## The subtraction -/

/-- When `is_healthy` subtracts, the difference does not underflow; and when it closes an
open circuit, its reading is 30 seconds or more after the last failure that is stored. -/
def Sound (s : SharedBreaker) : ClockEvent → Prop
  | .go c => (∀ now, s.calls[c]? = some (.loading now) →
        ((now - s.backend.lastFailure).toNat : Int) = now.toNat - s.backend.lastFailure.toNat) ∧
      ∀ now last, s.calls[c]? = some (.closing now last) → s.backend.circuitOpen = true →
        s.backend.lastFailure.toNat + 30 ≤ now.toNat
  | _ => True

/-- What a call of `is_healthy` loads from `last_failure` is no later than its reading, and
what is stored there while a call is about to close the circuit is 30 seconds or more
before the reading of that call. -/
def Timely (s : SharedBreaker) : ClockEvent → Prop
  | .go c => (∀ now, s.calls[c]? = some (.loading now) → s.backend.lastFailure ≤ now) ∧
      ∀ f t, s.calls[c]? = some (.storing f t) → ∀ now last, .closing now last ∈ s.calls → t.toNat + 30 ≤ now.toNat
  | _ => True

/-- The clock does not step back. -/
def Forward (s : SharedBreaker) : ClockEvent → Prop
  | .unixNow _ now => s.clock ≤ now
  | _ => True

instance (s : SharedBreaker) : ∀ e, Decidable (Forward s e)
  | .unixNow _ now => inferInstanceAs (Decidable (s.clock ≤ now))
  | .isHealthy | .recordFailure | .recordSuccess | .go _ => .isTrue trivial

/-- Nothing is stored in `last_failure` while a call of `is_healthy` has read the clock
and not yet closed the circuit. -/
def Undisturbed (s : SharedBreaker) : ClockEvent → Prop
  | .go c => ∀ f now, s.calls[c]? = some (.storing f now) →
      (∀ t, .loading t ∉ s.calls) ∧ ∀ t last, .closing t last ∉ s.calls
  | _ => True

variable {s s' : SharedBreaker} {e : ClockEvent} {c : Nat}

/-- The difference is what it stands for unless the clock is behind. -/
theorem sub_sound_iff {now last : UInt64} :
    ((now - last).toNat : Int) = now.toNat - last.toNat ↔ last ≤ now := by
  constructor
  · intro h
    rw [UInt64.le_iff_toNat_le]
    omega
  · intro h
    rw [UInt64.toNat_sub_of_le _ _ h]
    rw [UInt64.le_iff_toNat_le] at h
    omega

/-- What a call does by itself. -/
theorem step_go_eq_some_iff : s.step (.go c) = some s' ↔
    ∃ call call' b, s.calls[c]? = some call ∧ call.go s.backend = some (call', b) ∧
      s' = { s with backend := b, calls := s.calls.set c call' } := by
  constructor
  · intro hs
    obtain ⟨r, hr, rfl⟩ := Option.map_eq_some_iff.mp hs
    obtain ⟨call, hc, hgo⟩ := Option.bind_eq_some_iff.mp hr
    exact ⟨call, r.1, r.2, hc, hgo, rfl⟩
  · rintro ⟨call, call', b, hc, hgo, rfl⟩
    show (s.calls[c]?.bind (·.go s.backend)).map _ = _
    rw [hc, Option.bind_some, hgo]
    rfl

/-- What it does when it reads the clock. -/
theorem step_unixNow_eq_some_iff {now : UInt64} : s.step (.unixNow c now) = some s' ↔
    ∃ call call', s.calls[c]? = some call ∧ call.unixNow now = some call' ∧
      s' = { s with clock := now, calls := s.calls.set c call' } := by
  constructor
  · intro hs
    obtain ⟨call', hcall', rfl⟩ := Option.map_eq_some_iff.mp hs
    obtain ⟨call, hc, hnow⟩ := Option.bind_eq_some_iff.mp hcall'
    exact ⟨call, call', hc, hnow, rfl⟩
  · rintro ⟨call, call', hc, hnow, rfl⟩
    show (s.calls[c]?.bind (·.unixNow now)).map _ = _
    rw [hc, Option.bind_some, hnow]
    rfl

/-- What an event can do, one case for each way through the code. -/
inductive Moves (s : SharedBreaker) : ClockEvent → SharedBreaker → Prop
  | called {e : ClockEvent} {call : BreakerThread}
      (hcall : call = .checking ∨ call = .counting ∨ call = .forgiving) :
      Moves s e { s with calls := s.calls ++ [call] }
  | read {c : Nat} {now : UInt64} (hc : s.calls[c]? = some .reading) :
      Moves s (.unixNow c now) { s with clock := now, calls := s.calls.set c (.loading now) }
  | stamped {c : Nat} {f now : UInt64} (hc : s.calls[c]? = some (.stamping f)) :
      Moves s (.unixNow c now) { s with clock := now, calls := s.calls.set c (.storing f now) }
  | refused {c : Nat} {now : UInt64} (hc : s.calls[c]? = some (.loading now))
      (hrecent : ¬ cbResetSecs ≤ now - s.backend.lastFailure) :
      Moves s (.go c) { s with calls := s.calls.set c (.returned false) }
  | expired {c : Nat} {now : UInt64} (hc : s.calls[c]? = some (.loading now))
      (hup : cbResetSecs ≤ now - s.backend.lastFailure) :
      Moves s (.go c) { s with calls := s.calls.set c (.closing now s.backend.lastFailure) }
  | stored {c : Nat} {f now : UInt64} {call : BreakerThread} (hc : s.calls[c]? = some (.storing f now))
      (hcall : call = .opening ∨ call = .done) :
      Moves s (.go c) { s with backend := { s.backend with lastFailure := now }, calls := s.calls.set c call }
  /-- Operations that neither read nor write a time. -/
  | other {c : Nat} {b : Backend} {call call' : BreakerThread} (hc : s.calls[c]? = some call)
      (hb : b.lastFailure = s.backend.lastFailure) (hload : ∀ now, call' ≠ .loading now)
      (hclose : ∀ now last, call' ≠ .closing now last) (hstore : ∀ f now, call' ≠ .storing f now) :
      Moves s (.go c) { s with backend := b, calls := s.calls.set c call' }

theorem moves_of_step (hs : s.step e = some s') : Moves s e s' := by
  cases e with
  | isHealthy => cases hs; exact .called (.inl rfl)
  | recordFailure => cases hs; exact .called (.inr (.inl rfl))
  | recordSuccess => cases hs; exact .called (.inr (.inr rfl))
  | unixNow c now =>
    obtain ⟨call, call', hc, hnow, rfl⟩ := step_unixNow_eq_some_iff.mp hs
    cases call <;> cases hnow
    · exact .read hc
    · exact .stamped hc
  | go c =>
    obtain ⟨call, call', b, hc, hgo, rfl⟩ := step_go_eq_some_iff.mp hs
    cases call with
    | checking =>
      cases hgo
      split
      · exact .other hc rfl nofun nofun nofun
      · exact .other hc rfl nofun nofun nofun
    | loading now =>
      cases hgo
      split
      · rename_i hup; exact .expired hc hup
      · rename_i hup; exact .refused hc hup
    | storing f now =>
      cases hgo
      split
      · exact .stored hc (.inl rfl)
      · exact .stored hc (.inr rfl)
    | closing now last => cases hgo; exact .other hc rfl nofun nofun nofun
    | clearing => cases hgo; exact .other hc rfl nofun nofun nofun
    | counting => cases hgo; exact .other hc rfl nofun nofun nofun
    | opening => cases hgo; exact .other hc rfl nofun nofun nofun
    | forgiving => cases hgo; exact .other hc rfl nofun nofun nofun
    | restoring => cases hgo; exact .other hc rfl nofun nofun nofun
    | reading => cases hgo
    | stamping f => cases hgo
    | returned healthy => cases hgo
    | done => cases hgo

/-- What is in the list after an update and is not the new element was there before. -/
theorem mem_of_mem_set {l : List BreakerThread} {c : Nat} {x y : BreakerThread} (h : x ∈ l.set c y)
    (hne : x ≠ y) : x ∈ l :=
  (List.mem_or_eq_of_mem_set h).resolve_right hne

/-- The readings of the calls that are about to close the circuit are 30 seconds or more
after the last failure. -/
def Waited (s : SharedBreaker) : Prop :=
  ∀ now last, .closing now last ∈ s.calls → s.backend.lastFailure.toNat + 30 ≤ now.toNat

theorem Waited.step (h : Waited s) (ht : Timely s e) (hs : s.step e = some s') : Waited s' := by
  intro now last hmem
  cases moves_of_step hs with
  | called hcall =>
    rcases List.mem_append.mp hmem with hmem | hmem
    · exact h now last hmem
    · obtain rfl := List.mem_singleton.mp hmem
      simp at hcall
  | read => exact h now last (mem_of_mem_set hmem nofun)
  | stamped => exact h now last (mem_of_mem_set hmem nofun)
  | refused => exact h now last (mem_of_mem_set hmem nofun)
  | expired hc hup =>
    rcases List.mem_or_eq_of_mem_set hmem with hmem | he
    · exact h now last hmem
    · cases he
      exact (Backend.cbResetSecs_le_iff (ht.1 now hc)).mp hup
  | stored hc hcall =>
    refine ht.2 _ _ hc now last (mem_of_mem_set hmem ?_)
    rintro rfl
    simp at hcall
  | other hc hb hload hclose hstore =>
    dsimp only
    rw [hb]
    exact h now last (mem_of_mem_set hmem (hclose now last).symm)

theorem Timely.sound (h : Timely s e) (hw : Waited s) : Sound s e := by
  cases e with
  | go c =>
    exact ⟨fun now hc => sub_sound_iff.mpr (h.1 now hc), fun now last hc _ => hw now last (List.mem_of_getElem? hc)⟩
  | _ => trivial

/-- A store that comes too late for a call about to close the circuit: some run from there
on closes an open circuit early. -/
theorem exists_closed_early {f t now last : UInt64} (hc : s.calls[c]? = some (.storing f t))
    (hmem : .closing now last ∈ s.calls) (hlate : ¬ t.toNat + 30 ≤ now.toNat) :
    ∃ fs d m s', exec step s (.go c :: fs) = some m ∧ m.step d = some s' ∧ ¬ Sound m d := by
  obtain ⟨call, hcall, hstep⟩ : ∃ call, (∀ now last, call ≠ .closing now last) ∧
      s.step (.go c) = some { s with backend := { s.backend with lastFailure := t }, calls := s.calls.set c call } := by
    refine ⟨if cbThreshold ≤ f then .opening else .done, fun now last => ?_,
      step_go_eq_some_iff.mpr ⟨_, _, _, hc, rfl, rfl⟩⟩
    split <;> nofun
  obtain ⟨i, hi⟩ := List.mem_iff_getElem?.mp hmem
  have hne : c ≠ i := by
    rintro rfl
    rw [hc] at hi
    cases hi
  obtain ⟨fs, m, hfs, hopen, hlast, hcalls⟩ :=
    exists_opened { s with backend := { s.backend with lastFailure := t }, calls := s.calls.set c call } t
  have hi' : m.calls[i]? = some (.closing now last) := by
    obtain ⟨rest, hrest⟩ := hcalls
    rw [← hrest]
    dsimp only
    rw [List.getElem?_append_left (by rw [List.length_set]; exact (List.getElem?_eq_some_iff.mp hi).1),
      List.getElem?_set_ne hne, hi]
  refine ⟨fs, .go i, m, _, exec_cons.mpr ⟨_, hstep, hfs⟩, step_go_eq_some_iff.mpr ⟨_, _, _, hi', rfl, rfl⟩, ?_⟩
  intro hsound
  have := hsound.2 now last hi' hopen
  rw [hlast] at this
  exact hlate this

/-- An event that is not timely leads to one that is not sound, at once or later. -/
theorem exists_unsound (h : ¬ Timely s e) :
    ∃ fs d m s', exec step s fs = some m ∧ m.step d = some s' ∧ ¬ Sound m d ∧ [e] <+: fs ++ [d] := by
  cases e with
  | go c =>
    rcases Classical.not_and_iff_not_or_not.mp h with hload | hstore
    · obtain ⟨now, hnow⟩ := Classical.not_forall.mp hload
      obtain ⟨hc, hlate⟩ := Classical.not_imp.mp hnow
      refine ⟨[], .go c, s, _, rfl, step_go_eq_some_iff.mpr ⟨_, _, _, hc, rfl, rfl⟩, fun hs => ?_, List.prefix_rfl⟩
      exact hlate (sub_sound_iff.mp (hs.1 now hc))
    · simp only [Classical.not_forall] at hstore
      obtain ⟨f, t, hc, now, last, hmem, hlate⟩ := hstore
      obtain ⟨fs, d, m, s', hrun, hd, hno⟩ := exists_closed_early hc hmem hlate
      exact ⟨.go c :: fs, d, m, s', hrun, hd, hno, List.cons_prefix_cons.mpr ⟨rfl, List.nil_prefix⟩⟩
  | _ => exact absurd trivial h

/-! ## A clock that does not step back -/

/-- No time is later than the clock, and none in `last_failure` later than the reading
that it is going to be subtracted from. -/
structure Dated (s : SharedBreaker) : Prop where
  last : s.backend.lastFailure ≤ s.clock
  storing : ∀ f now, .storing f now ∈ s.calls → now ≤ s.clock
  loading : ∀ now, .loading now ∈ s.calls → s.backend.lastFailure ≤ now

theorem dated_start (url : String) : Dated (start url) := ⟨UInt64.le_refl _, nofun, nofun⟩

/-- A call that goes on without a time of its own. -/
theorem Dated.goOn (h : Dated s) {c : Nat} {b : Backend} {call : BreakerThread}
    (hb : b.lastFailure = s.backend.lastFailure) (hload : ∀ now, call ≠ .loading now)
    (hstore : ∀ f now, call ≠ .storing f now) : Dated { s with backend := b, calls := s.calls.set c call } where
  last := hb ▸ h.last
  storing f now hx := h.storing f now (mem_of_mem_set hx (hstore f now).symm)
  loading now hx := by
    dsimp only
    rw [hb]
    exact h.loading now (mem_of_mem_set hx (hload now).symm)

theorem Dated.step (h : Dated s) (hf : Forward s e) (hu : Undisturbed s e) (hs : s.step e = some s') :
    Dated s' := by
  cases moves_of_step hs with
  | @called _ call hcall =>
    have hmem {x : BreakerThread} (hx : x ∈ s.calls ++ [call]) (hne : x ≠ call) : x ∈ s.calls :=
      (List.mem_append.mp hx).resolve_right fun h => hne (List.mem_singleton.mp h)
    refine ⟨h.last, fun f now hx => h.storing f now (hmem hx ?_), fun now hx => h.loading now (hmem hx ?_)⟩
    · rintro rfl; simp at hcall
    · rintro rfl; simp at hcall
  | @read c now hc =>
    have hnow : s.clock ≤ now := hf
    refine ⟨UInt64.le_trans h.last hnow, fun f t hx => ?_, fun t hx => ?_⟩
    · exact UInt64.le_trans (h.storing f t (mem_of_mem_set hx nofun)) hnow
    · rcases List.mem_or_eq_of_mem_set hx with hx | he
      · exact h.loading t hx
      · cases he
        exact UInt64.le_trans h.last hnow
  | @stamped c f now hc =>
    have hnow : s.clock ≤ now := hf
    refine ⟨UInt64.le_trans h.last hnow, fun f' t hx => ?_, fun t hx => ?_⟩
    · rcases List.mem_or_eq_of_mem_set hx with hx | he
      · exact UInt64.le_trans (h.storing f' t hx) hnow
      · cases he
        exact UInt64.le_refl _
    · exact h.loading t (mem_of_mem_set hx nofun)
  | refused => exact h.goOn rfl nofun nofun
  | expired => exact h.goOn rfl nofun nofun
  | @stored c f now call hc hcall =>
    refine ⟨h.storing f now (List.mem_of_getElem? hc), fun f' t hx => ?_, fun t hx => ?_⟩
    · refine h.storing f' t (mem_of_mem_set hx ?_)
      rintro rfl; simp at hcall
    · have hmem : BreakerThread.loading t ∈ s.calls := mem_of_mem_set hx (by rintro rfl; simp at hcall)
      exact absurd hmem ((hu f now hc).1 t)
  | other hc hb hload hclose hstore => exact h.goOn hb hload hstore

theorem Dated.timely (h : Dated s) (hu : Undisturbed s e) : Timely s e := by
  cases e with
  | go c =>
    exact ⟨fun now hc => h.loading now (List.mem_of_getElem? hc),
      fun f t hc now last hmem => absurd hmem ((hu f t hc).2 now last)⟩
  | _ => trivial

/-- **When the clock arithmetic is sound.** In a run of concurrent calls whose steps are all
timely no subtraction underflows and no open circuit is closed early. If a step is not, the
run can go on from there so that one or the other happens. All steps are timely if the clock
does not step back and no failure is stored while a call of `is_healthy` has read it and
not yet closed the circuit. -/
theorem elapsed_sound_timely (url : String) (es : List ClockEvent) :
    (Along step Timely (start url) es → Along step Sound (start url) es) ∧
      (¬ Along step Timely (start url) es → ∃ ds e fs s, ds ++ [e] <+: es ∧ ds ++ [e] <+: fs ∧
        exec step (start url) fs = some s ∧ ¬ Along step Sound (start url) fs) ∧
      (Along step Forward (start url) es → Along step Undisturbed (start url) es →
        Along step Timely (start url) es) := by
  refine ⟨fun h => ?_, fun h => ?_, fun hforward hundisturbed => ?_⟩
  · exact Along.mono_inv (I := Waited) (fun _ _ _ hw ht hs => hw.step ht hs) (fun _ _ hw ht => ht.sound hw) nofun h
  · obtain ⟨ds, e, m, hds, hm, hnot⟩ := exists_of_not_along h
    obtain ⟨fs, d, n, s', hfs, hd, hunsound, hprefix⟩ := exists_unsound hnot
    have hrun : exec step (start url) (ds ++ fs) = some n := exec_append.mpr ⟨m, hm, hfs⟩
    refine ⟨ds, e, ds ++ fs ++ [d], s', hds, ?_, exec_snoc.mpr ⟨n, hrun, hd⟩, fun hsound => ?_⟩
    · rw [List.append_assoc]
      exact (List.prefix_append_right_inj ds).mpr hprefix
    · exact hunsound (Along.append hrun hsound).2.1
  · exact Along.mono_inv (I := Dated) (P := fun s e => Forward s e ∧ Undisturbed s e)
      (fun _ _ _ h hP hs => h.step hP.1 hP.2 hs) (fun _ e h hP => h.timely hP.2) (dated_start url)
      (hforward.and hundisturbed)

/-- Five failures, each on its own, by the clock of second `now`. -/
def fiveFailures (now : UInt64) : List ClockEvent :=
  (List.range 5).flatMap fun c => .recordFailure :: (if c < 4 then [.go c, .unixNow c now, .go c]
    else [.go c, .unixNow c now, .go c, .go c])

/-- What an event does after a sound run. -/
theorem Sound.of_run {es : List ClockEvent} {url : String} (h : Along step Sound (start url) (es ++ [e]))
    (hrun : exec step (start url) es = some s) : Sound s e :=
  (Along.append hrun h).2.1

/-- **A clock that steps back, and one that does not.** After five failures at second
100, a reading of 99 underflows. A failure stored at second 101, between the reading of
100 and the load, does the same. One stored at second 130, between the load and the store
of a call that has read 130, has the circuit closed 0 seconds after it. -/
theorem elapsed_underflows :
    ¬ (∀ (url : String) (es : List ClockEvent), Along step Sound (start url) es) ∧
      (¬ ∀ (url : String) (es : List ClockEvent), Along step Forward (start url) es →
        Along step Sound (start url) es) ∧
      ∃ es s, exec step (start "http://a") es = some s ∧ Along step Forward (start "http://a") es ∧
        s.calls[5]? = some (.closing 130 100) ∧ s.backend.circuitOpen = true ∧ s.backend.lastFailure = 130 ∧
        ¬ Sound s (.go 5) := by
  refine ⟨fun h => ?_, fun h => ?_, ?_⟩
  · have hsound := Sound.of_run (h "http://a" (fiveFailures 100 ++ [.isHealthy, .go 5, .unixNow 5 99] ++ [.go 5])) rfl
    exact absurd (sub_sound_iff.mp (hsound.1 99 rfl)) (by decide)
  · have hsound := Sound.of_run (h "http://a" (fiveFailures 100 ++
      [.isHealthy, .go 5, .unixNow 5 100, .recordFailure, .go 6, .unixNow 6 101, .go 6] ++ [.go 5]) (by decide)) rfl
    exact absurd (sub_sound_iff.mp (hsound.1 100 rfl)) (by decide)
  · exact ⟨fiveFailures 100 ++
      [.isHealthy, .go 5, .unixNow 5 130, .go 5, .recordFailure, .go 6, .unixNow 6 130, .go 6],
      _, rfl, by decide, rfl, rfl, rfl, fun h => absurd (h.2 130 100 rfl rfl) (by decide)⟩

end SharedBreaker

end Curf
