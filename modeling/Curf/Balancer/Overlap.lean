import Curf.Balancer.SharedBreaker
import Curf.Lib.Tally

/-!
# What overlapping calls make of a breaker

Each call on a breaker changes its fields one after the other, so that between two steps
of a call they need not agree. `Promised` says that while they disagree some call in
progress is going to change the field that is wrong; a store at the wrong time breaks the
promise. `fields_agree_inTime` says which stores these are, and that after one of them the
calls in progress can finish and leave the fields as they are, in disagreement.
-/

namespace Curf

open Lib

namespace BreakerThread

/-- The call has done the first of its atomic operations and not yet the last. -/
def inProgress : BreakerThread → Bool
  | .checking | .counting | .forgiving | .returned _ | .done => false
  | .reading | .loading _ | .closing _ _ | .clearing | .stamping _ | .storing _ _ | .opening | .restoring => true

def finished : BreakerThread → Bool
  | .returned _ | .done => true
  | _ => false

/-- As things stand the call is going to reset the circuit: the time that `is_healthy` has
read, and what it is about to load, are far enough apart. -/
def resets (b : Backend) : BreakerThread → Bool
  | .loading now => cbResetSecs ≤ now - b.lastFailure
  | .closing _ _ => true
  | _ => false

/-- The call is going to store `false` in `circuit_open`. -/
def closes (b : Backend) (call : BreakerThread) : Bool := call.resets b || call = .restoring

/-- The call is going to store zero in `failures`. -/
def clears (b : Backend) (call : BreakerThread) : Bool := call.resets b || call = .clearing

/-- The call is going to store `true` in `circuit_open`. -/
def opens : BreakerThread → Bool
  | .stamping f | .storing f _ => cbThreshold ≤ f
  | .opening => true
  | _ => false

/-- The operations and clock readings that a call in progress has left, at most. -/
def left : BreakerThread → Nat
  | .reading => 4
  | .loading _ | .stamping _ => 3
  | .closing _ _ | .storing _ _ => 2
  | .clearing | .opening | .restoring => 1
  | .checking | .counting | .forgiving | .returned _ | .done => 0

end BreakerThread

namespace ClockEvent

/-- A call that has been made goes on. -/
def goesOn : ClockEvent → Bool
  | .unixNow _ _ | .go _ => true
  | .isHealthy | .recordFailure | .recordSuccess => false

end ClockEvent

namespace Backend

/-- The circuit is open exactly at five failures or more. -/
def Agrees (b : Backend) : Prop := b.circuitOpen = true ↔ cbThreshold ≤ b.failures

instance (b : Backend) : Decidable b.Agrees :=
  inferInstanceAs (Decidable (b.circuitOpen = true ↔ cbThreshold ≤ b.failures))

end Backend

/-- While the fields of `b` disagree, one of the `calls` is going to change a field that is wrong. -/
structure Promised (b : Backend) (calls : List BreakerThread) : Prop where
  few : b.circuitOpen = true → b.failures < cbThreshold → ∃ call ∈ calls, call.closes b = true
  many : b.circuitOpen = false → cbThreshold ≤ b.failures →
    ∃ call ∈ calls, call.opens = true ∨ call.clears b = true

namespace SharedBreaker

def left (s : SharedBreaker) : Nat := (s.calls.map BreakerThread.left).sum

/-- No call is in progress. -/
def Quiet (s : SharedBreaker) : Prop := ∀ call ∈ s.calls, call.inProgress = false

/-- A field that the step leaves wrong is going to be changed again. Only these five operations
can break off what was promised. -/
def InTime (s : SharedBreaker) : ClockEvent → Prop
  | .go c =>
    match s.calls[c]? with
    -- the failures have been cleared since this call counted five
    | some .opening => s.backend.failures < cbThreshold → ∃ call ∈ s.calls, call.closes s.backend = true
    -- five more failures have been counted since this call cleared them
    | some .restoring =>
      cbThreshold ≤ s.backend.failures → ∃ call ∈ s.calls, call.opens = true ∨ call.clears s.backend = true
    -- the circuit has been opened since this call closed it
    | some .clearing => s.backend.circuitOpen = true → ∃ call ∈ s.calls, call.closes s.backend = true
    -- the count wraps around
    | some .counting =>
      s.backend.circuitOpen = true → s.backend.failures + 1 = 0 → ∃ call ∈ s.calls, call.closes s.backend = true
    -- a later failure keeps a call from resetting the circuit
    | some (.storing _ now) => Promised { s.backend with lastFailure := now } s.calls
    | _ => True
  | _ => True

end SharedBreaker

variable {s s' : SharedBreaker} {e : ClockEvent} {b : Backend} {calls : List BreakerThread} {c : Nat}
  {call call' : BreakerThread} {Q : BreakerThread → Prop}

/-! ## Promises -/

/-- What some call is going to do is still to be done when another call goes on. -/
theorem exists_mem_set (hc : calls[c]? = some call) (hkeep : Q call → Q call') (h : ∃ x ∈ calls, Q x) :
    ∃ x ∈ calls.set c call', Q x := by
  obtain ⟨x, hx, hQ⟩ := h
  obtain ⟨i, hi⟩ := List.mem_iff_getElem?.mp hx
  by_cases hic : c = i
  · subst hic
    obtain rfl := Option.some.inj (hc.symm.trans hi)
    have hlt := (List.getElem?_eq_some_iff.mp hc).1
    exact ⟨call', List.mem_iff_getElem?.mpr ⟨c, List.getElem?_set_self hlt⟩, hkeep hQ⟩
  · exact ⟨x, List.mem_iff_getElem?.mpr ⟨i, (List.getElem?_set_ne hic).trans hi⟩, hQ⟩

theorem exists_mem_set_iff (hc : calls[c]? = some call) (hkeep : Q call' ↔ Q call) :
    (∃ x ∈ calls.set c call', Q x) ↔ ∃ x ∈ calls, Q x := by
  constructor
  · rintro ⟨x, hx, hQ⟩
    rcases List.mem_or_eq_of_mem_set hx with hx | rfl
    · exact ⟨x, hx, hQ⟩
    · exact ⟨call, List.mem_of_getElem? hc, hkeep.mp hQ⟩
  · exact exists_mem_set hc hkeep.mpr

theorem zero_lt_cbThreshold : (0 : UInt64) < cbThreshold := by decide

/-- The count comes below the threshold only by wrapping around. -/
theorem add_one_eq_zero {f : UInt64} (h : cbThreshold ≤ f) (hf : f + 1 < cbThreshold) : f + 1 = 0 := by
  rw [UInt64.le_iff_toNat_le, cbThreshold] at h
  rw [UInt64.lt_iff_toNat_lt, UInt64.toNat_add, cbThreshold] at hf
  rw [← UInt64.toNat_inj, UInt64.toNat_add]
  have hlt := f.toNat_lt
  simp only [UInt64.reduceToNat] at h hf ⊢
  omega

/-- A time that is not far enough from the last failure resets nothing. -/
theorem loading_recent {now : UInt64} (hrecent : ¬ cbResetSecs ≤ now - b.lastFailure) :
    (BreakerThread.loading now).closes b = false ∧ (BreakerThread.loading now).clears b = false := by
  have hresets : (BreakerThread.loading now).resets b = false := decide_eq_false hrecent
  simp [BreakerThread.closes, BreakerThread.clears, hresets]

theorem promised_new (url : String) : Promised (.new url) [] where
  few := nofun
  many _ hf := absurd zero_lt_cbThreshold (UInt64.not_lt.mpr hf)

theorem Promised.append (h : Promised b calls) (call : BreakerThread) : Promised b (calls ++ [call]) where
  few ho hf := (h.few ho hf).imp fun _ hx => ⟨List.mem_append_left _ hx.1, hx.2⟩
  many ho hf := (h.many ho hf).imp fun _ hx => ⟨List.mem_append_left _ hx.1, hx.2⟩

/-- A call goes on and is still going to do what it was. -/
theorem Promised.goOn (h : Promised b calls) (hc : calls[c]? = some call)
    (hcloses : call.closes b = true → call'.closes b = true)
    (hopens : call.opens = true ∨ call.clears b = true → call'.opens = true ∨ call'.clears b = true) :
    Promised b (calls.set c call') where
  few ho hf := exists_mem_set hc hcloses (h.few ho hf)
  many ho hf := exists_mem_set hc hopens (h.many ho hf)

theorem exists_closes_set_iff (call' : BreakerThread) (hc : calls[c]? = some call)
    (hcloses : call'.closes b = call.closes b) :
    (∃ x ∈ calls.set c call', x.closes b = true) ↔ ∃ x ∈ calls, x.closes b = true :=
  exists_mem_set_iff hc (by rw [hcloses])

theorem exists_opens_set_iff (call' : BreakerThread) (hc : calls[c]? = some call)
    (hopens : call'.opens = call.opens) (hclears : call'.clears b = call.clears b) :
    (∃ x ∈ calls.set c call', x.opens = true ∨ x.clears b = true) ↔
      ∃ x ∈ calls, x.opens = true ∨ x.clears b = true :=
  exists_mem_set_iff hc (by rw [hopens, hclears])

/-- Only the two fields count, and what the calls are going to do. -/
theorem promised_congr {b' : Backend} {calls' : List BreakerThread} (hopen : b'.circuitOpen = b.circuitOpen)
    (hfailures : b'.failures = b.failures)
    (hfew : (∃ call ∈ calls', call.closes b' = true) ↔ ∃ call ∈ calls, call.closes b = true)
    (hmany : (∃ call ∈ calls', call.opens = true ∨ call.clears b' = true) ↔
      ∃ call ∈ calls, call.opens = true ∨ call.clears b = true) : Promised b' calls' ↔ Promised b calls := by
  constructor
  · rintro ⟨few, many⟩
    rw [hopen, hfailures] at few many
    exact ⟨fun ho hf => hfew.mp (few ho hf), fun ho hf => hmany.mp (many ho hf)⟩
  · rintro ⟨few, many⟩
    rw [← hopen, ← hfailures] at few many
    exact ⟨fun ho hf => hfew.mpr (few ho hf), fun ho hf => hmany.mpr (many ho hf)⟩

/-- A call goes on to do just what it was going to. -/
theorem promised_set_iff (call' : BreakerThread) (hc : calls[c]? = some call)
    (hcloses : call'.closes b = call.closes b) (hopens : call'.opens = call.opens)
    (hclears : call'.clears b = call.clears b) : Promised b (calls.set c call') ↔ Promised b calls :=
  promised_congr rfl rfl (exists_closes_set_iff _ hc hcloses) (exists_opens_set_iff _ hc hopens hclears)

/-- After the time of a failure comes the circuit, if there have been enough of them. -/
theorem promised_set_storing_iff {f now : UInt64} (hc : calls[c]? = some (.storing f now)) :
    Promised b (calls.set c (if cbThreshold ≤ f then .opening else .done)) ↔ Promised b calls := by
  by_cases hf : cbThreshold ≤ f
  · rw [if_pos hf]
    exact promised_set_iff .opening hc rfl (decide_eq_true hf).symm rfl
  · rw [if_neg hf]
    exact promised_set_iff .done hc rfl (decide_eq_false hf).symm rfl

/-- The failures are cleared. -/
theorem promised_clear_iff : Promised { b with failures := 0 } calls ↔
    (b.circuitOpen = true → ∃ call ∈ calls, call.closes b = true) := by
  constructor
  · exact fun h ho => h.few ho zero_lt_cbThreshold
  · exact fun h => ⟨fun ho _ => h ho, fun _ hf => absurd zero_lt_cbThreshold (UInt64.not_lt.mpr hf)⟩

/-- The circuit is opened. -/
theorem promised_open_iff : Promised { b with circuitOpen := true } calls ↔
    (b.failures < cbThreshold → ∃ call ∈ calls, call.closes b = true) := by
  constructor
  · exact fun h hf => h.few rfl hf
  · exact fun h => ⟨fun _ hf => h hf, nofun⟩

/-- The circuit is closed. -/
theorem promised_close_iff : Promised { b with circuitOpen := false } calls ↔
    (cbThreshold ≤ b.failures → ∃ call ∈ calls, call.opens = true ∨ call.clears b = true) := by
  constructor
  · exact fun h hf => h.many rfl hf
  · exact fun h => ⟨nofun, fun _ hf => h hf⟩

/-- A call that was not going to do anything stops or waits. -/
theorem Promised.idle (h : Promised b calls) (hc : calls[c]? = some call) (hcloses : call.closes b = false)
    (hopens : call.opens = false) (hclears : call.clears b = false) : Promised b (calls.set c call') :=
  h.goOn hc (by simp [hcloses]) (by simp [hopens, hclears])

namespace SharedBreaker

/-! ## One call goes on -/

/-- **One step keeps the promise** exactly when it is in time. -/
theorem promised_step_iff (h : Promised s.backend s.calls) (hs : s.step e = some s') :
    Promised s'.backend s'.calls ↔ InTime s e := by
  cases e with
  | isHealthy => cases hs; exact iff_of_true (h.append _) trivial
  | recordFailure => cases hs; exact iff_of_true (h.append _) trivial
  | recordSuccess => cases hs; exact iff_of_true (h.append _) trivial
  | unixNow c now =>
    obtain ⟨call, call', hc, hnow, rfl⟩ := step_unixNow_eq_some_iff.mp hs
    refine iff_of_true ?_ trivial
    cases call <;> cases hnow
    · exact h.idle hc rfl rfl rfl
    · exact h.goOn hc id id
  | go c =>
    obtain ⟨call, call', b, hc, hgo, rfl⟩ := step_go_eq_some_iff.mp hs
    have hmem {call' : BreakerThread} : call' ∈ s.calls.set c call' :=
      List.mem_set (List.getElem?_eq_some_iff.mp hc).1 call'
    simp only [InTime, hc]
    cases call with
    | checking =>
      cases hgo
      exact iff_of_true (h.idle hc rfl rfl rfl) trivial
    | loading now =>
      cases hgo
      refine iff_of_true ?_ trivial
      by_cases hup : cbResetSecs ≤ now - s.backend.lastFailure
      · rw [if_pos hup]
        exact h.goOn hc (fun _ => rfl) fun _ => .inr rfl
      · rw [if_neg hup]
        obtain ⟨hcloses, hclears⟩ := loading_recent hup
        exact h.idle hc hcloses rfl hclears
    | closing now last =>
      cases hgo
      exact iff_of_true (promised_close_iff.mpr fun _ => ⟨.clearing, hmem, .inr rfl⟩) trivial
    | clearing =>
      cases hgo
      exact promised_clear_iff.trans (imp_congr_right fun _ => exists_closes_set_iff _ hc rfl)
    | counting =>
      cases hgo
      have hset := exists_closes_set_iff (b := s.backend) (.stamping (s.backend.failures + 1)) hc rfl
      constructor
      · intro h' ho hzero
        exact hset.mp (h'.few ho (hzero ▸ zero_lt_cbThreshold))
      · intro h'
        refine ⟨fun ho hf => hset.mpr ?_, fun _ hf => ⟨_, hmem, .inl (decide_eq_true hf)⟩⟩
        by_cases hfew : s.backend.failures < cbThreshold
        · exact h.few ho hfew
        · exact h' ho (add_one_eq_zero (UInt64.not_lt.mp hfew) hf)
    | storing f now =>
      cases hgo
      exact promised_set_storing_iff hc
    | opening =>
      cases hgo
      exact promised_open_iff.trans (imp_congr_right fun _ => exists_closes_set_iff _ hc rfl)
    | forgiving =>
      cases hgo
      exact iff_of_true (promised_clear_iff.mpr fun _ => ⟨.restoring, hmem, rfl⟩) trivial
    | restoring =>
      cases hgo
      exact promised_close_iff.trans (imp_congr_right fun _ => exists_opens_set_iff _ hc rfl rfl)
    | reading => cases hgo
    | stamping f => cases hgo
    | returned healthy => cases hgo
    | done => cases hgo

theorem inTime_of_stuck (hs : s.step e = none) : InTime s e := by
  cases e with
  | go c =>
    cases hc : s.calls[c]? with
    | none => simp only [InTime, hc]
    | some call =>
      have hgo : call.go s.backend = none := by simpa [step, hc] using hs
      cases call with
      | reading | stamping | returned | done => simp only [InTime, hc]
      | _ => cases hgo
  | _ => trivial

/-- **The promise is kept** throughout a run exactly when all its steps are in time. -/
theorem throughout_promised_iff (url : String) (es : List ClockEvent) :
    Throughout step (fun s => Promised s.backend s.calls) (start url) es ↔ Along step InTime (start url) es :=
  throughout_iff_along (I := fun _ => True) (fun _ _ _ _ _ => trivial) (fun _ _ _ _ h hs => promised_step_iff h hs)
    (fun _ _ hs => inTime_of_stuck hs) trivial (promised_new url)

/-! ## No call in progress -/

/-- A call that is not in progress is not going to do anything. -/
theorem idle_of_not_inProgress (b : Backend) (hout : call.inProgress = false) :
    call.closes b = false ∧ call.opens = false ∧ call.clears b = false := by
  cases call with
  | checking | counting | forgiving | returned | done => exact ⟨rfl, rfl, rfl⟩
  | _ => cases hout

/-- With no call in progress there is nothing left to promise. -/
theorem Quiet.agrees_iff (hq : s.Quiet) : s.backend.Agrees ↔ Promised s.backend s.calls := by
  constructor
  · intro h
    refine ⟨fun ho hf => absurd (h.mp ho) (UInt64.not_le.mpr hf), fun ho hf => ?_⟩
    rw [h.mpr hf] at ho
    cases ho
  · intro h
    constructor
    · refine fun ho => Decidable.byContradiction fun hf => ?_
      obtain ⟨call, hmem, hcloses⟩ := h.few ho (UInt64.not_le.mp hf)
      simp [idle_of_not_inProgress s.backend (hq call hmem)] at hcloses
    · refine fun hf => Decidable.byContradiction fun ho => ?_
      obtain ⟨call, hmem, hopens⟩ := h.many (Bool.eq_false_iff.mpr ho) hf
      simp [idle_of_not_inProgress s.backend (hq call hmem)] at hopens

/-! ## The calls in progress finish -/

/-- A broken promise leaves the fields wrong, and no call in progress to change the wrong one. -/
theorem cases_of_not_promised (h : ¬ Promised b calls) :
    (b.circuitOpen = true ∧ b.failures < cbThreshold ∧ ¬ ∃ call ∈ calls, call.closes b = true) ∨
      (b.circuitOpen = false ∧ cbThreshold ≤ b.failures ∧
        ¬ ∃ call ∈ calls, call.opens = true ∨ call.clears b = true) := by
  by_cases ho : b.circuitOpen = true
  · refine .inl ⟨ho, Decidable.byContradiction fun hf => ?_, fun hcloses => ?_⟩
    · exact h ⟨fun _ hfew => absurd hfew hf, fun hno => by rw [ho] at hno; cases hno⟩
    · exact h ⟨fun _ _ => hcloses, fun hno => by rw [ho] at hno; cases hno⟩
  · have hno : b.circuitOpen = false := Bool.eq_false_iff.mpr ho
    refine .inr ⟨hno, Decidable.byContradiction fun hf => ?_, fun hopens => ?_⟩
    · exact h ⟨fun hyes => absurd hyes ho, fun _ hmany => absurd hmany hf⟩
    · exact h ⟨fun hyes => absurd hyes ho, fun _ _ => hopens⟩

theorem resets_eq_false (h : ¬ Promised b calls) (hmem : call ∈ calls) : call.resets b = false := by
  refine Bool.eq_false_iff.mpr fun hresets => ?_
  rcases cases_of_not_promised h with ⟨-, -, hno⟩ | ⟨-, -, hno⟩
  · exact hno ⟨call, hmem, by simp [BreakerThread.closes, hresets]⟩
  · exact hno ⟨call, hmem, .inr (by simp [BreakerThread.clears, hresets])⟩

/-- With no call about to load it, the time of the last failure makes no difference. -/
theorem promised_lastFailure_iff (now : UInt64) (hload : ∀ call ∈ calls, ∀ t, call ≠ .loading t) :
    Promised { b with lastFailure := now } calls ↔ Promised b calls := by
  have hresets : ∀ call ∈ calls, call.resets { b with lastFailure := now } = call.resets b := by
    intro call hmem
    cases call with
    | loading t => exact absurd rfl (hload _ hmem t)
    | _ => rfl
  have hcloses : (∃ call ∈ calls, call.closes { b with lastFailure := now } = true) ↔
      ∃ call ∈ calls, call.closes b = true :=
    exists_congr fun call => and_congr_right fun hmem => by simp only [BreakerThread.closes, hresets call hmem]
  have hopens : (∃ call ∈ calls, call.opens = true ∨ call.clears { b with lastFailure := now } = true) ↔
      ∃ call ∈ calls, call.opens = true ∨ call.clears b = true :=
    exists_congr fun call => and_congr_right fun hmem => by simp only [BreakerThread.clears, hresets call hmem]
  exact promised_congr rfl rfl hcloses hopens

/-- A call in progress can go on so that the promise stays broken. -/
theorem goesOn_not_promised (h : ¬ Promised b calls) (hc : calls[c]? = some call) (hin : call.inProgress = true)
    (hload : (∃ t, call = .loading t) ∨ ∀ x ∈ calls, ∀ t, x ≠ .loading t) :
    (∃ call' b', call.go b = some (call', b') ∧ ¬ Promised b' (calls.set c call')) ∨
      ∃ now call', call.unixNow now = some call' ∧ ¬ Promised b (calls.set c call') := by
  have hmem : call ∈ calls := List.mem_of_getElem? hc
  have hresets := resets_eq_false h hmem
  cases call with
  | reading =>
    -- the clock may answer the very time that is going to be loaded
    have hrecent : ¬ cbResetSecs ≤ b.lastFailure - b.lastFailure := by simp [cbResetSecs]
    obtain ⟨hcloses, hclears⟩ := loading_recent hrecent
    exact .inr ⟨b.lastFailure, _, rfl, mt (promised_set_iff (.loading _) hc hcloses rfl hclears).mp h⟩
  | loading now =>
    have hrecent : ¬ cbResetSecs ≤ now - b.lastFailure := of_decide_eq_false hresets
    have hgo : (BreakerThread.loading now).go b = some (.returned false, b) := by
      simp only [BreakerThread.go, if_neg hrecent]
    obtain ⟨hcloses, hclears⟩ := loading_recent hrecent
    exact .inl ⟨_, _, hgo, mt (promised_set_iff (.returned false) hc hcloses.symm rfl hclears.symm).mp h⟩
  | stamping f => exact .inr ⟨0, _, rfl, mt (promised_set_iff (.storing f 0) hc rfl rfl rfl).mp h⟩
  | storing f now =>
    have hnone : ∀ x ∈ calls, ∀ t, x ≠ .loading t := hload.resolve_left (by simp)
    refine .inl ⟨_, _, rfl, mt (fun h' => ?_) h⟩
    exact (promised_lastFailure_iff now hnone).mp ((promised_set_storing_iff hc).mp h')
  | clearing =>
    refine .inl ⟨_, _, rfl, fun h' => ?_⟩
    rcases cases_of_not_promised h with ⟨ho, -, hno⟩ | ⟨-, -, hno⟩
    · exact hno ((exists_closes_set_iff (.returned true) hc rfl).mp (promised_clear_iff.mp h' ho))
    · exact hno ⟨_, hmem, .inr rfl⟩
  | opening =>
    refine .inl ⟨_, _, rfl, fun h' => ?_⟩
    rcases cases_of_not_promised h with ⟨-, hf, hno⟩ | ⟨-, -, hno⟩
    · exact hno ((exists_closes_set_iff .done hc rfl).mp (promised_open_iff.mp h' hf))
    · exact hno ⟨_, hmem, .inl rfl⟩
  | restoring =>
    refine .inl ⟨_, _, rfl, fun h' => ?_⟩
    rcases cases_of_not_promised h with ⟨-, -, hno⟩ | ⟨-, hf, hno⟩
    · exact hno ⟨_, hmem, rfl⟩
    · exact hno ((exists_opens_set_iff .done hc rfl rfl).mp (promised_close_iff.mp h' hf))
  | closing now last => cases hresets
  | checking => cases hin
  | counting => cases hin
  | forgiving => cases hin
  | returned healthy => cases hin
  | done => cases hin

theorem left_go_lt {b' : Backend} (hin : call.inProgress = true) (hgo : call.go b = some (call', b')) :
    call'.left < call.left := by
  cases call with
  | loading | storing => cases hgo; split <;> simp [BreakerThread.left]
  | closing | clearing | opening | restoring => cases hgo; simp [BreakerThread.left]
  | reading | stamping | returned | done => cases hgo
  | checking | counting | forgiving => cases hin

theorem left_unixNow_lt {now : UInt64} (hnow : call.unixNow now = some call') : call'.left < call.left := by
  cases call <;> cases hnow <;> simp [BreakerThread.left]

/-- **A broken promise is not mended**: the calls in progress can finish and leave the fields as they are. -/
theorem exists_quiet_of_not_promised (h : ¬ Promised s.backend s.calls) :
    ∃ es s', (∀ e ∈ es, e.goesOn = true) ∧ exec step s es = some s' ∧ s'.Quiet ∧ ¬ s'.backend.Agrees := by
  have hgoes (s : SharedBreaker) {c : Nat} {call : BreakerThread} (h : ¬ Promised s.backend s.calls)
      (hc : s.calls[c]? = some call) (hin : call.inProgress = true)
      (hload : (∃ t, call = .loading t) ∨ ∀ x ∈ s.calls, ∀ t, x ≠ .loading t) :
      ∃ e s', e.goesOn = true ∧ s.step e = some s' ∧ ¬ Promised s'.backend s'.calls ∧ s'.left < s.left := by
    rcases goesOn_not_promised h hc hin hload with ⟨call', b, hgo, hp⟩ | ⟨now, call', hnow, hp⟩
    · refine ⟨.go c, _, rfl, step_go_eq_some_iff.mpr ⟨_, _, _, hc, hgo, rfl⟩, hp, ?_⟩
      exact sum_map_set_lt hc (left_go_lt hin hgo)
    · refine ⟨.unixNow c now, _, rfl, step_unixNow_eq_some_iff.mpr ⟨_, _, hc, hnow, rfl⟩, hp, ?_⟩
      exact sum_map_set_lt hc (left_unixNow_lt hnow)
  have hstep (s : SharedBreaker) (h : ¬ Promised s.backend s.calls) (hq : ¬ s.Quiet) :
      ∃ e s', e.goesOn = true ∧ s.step e = some s' ∧ ¬ Promised s'.backend s'.calls ∧ s'.left < s.left := by
    -- a time about to be loaded must not be overwritten first
    by_cases hload : ∃ t, .loading t ∈ s.calls
    · obtain ⟨t, hmem⟩ := hload
      obtain ⟨c, hc⟩ := List.mem_iff_getElem?.mp hmem
      exact hgoes s h hc rfl (.inl ⟨t, rfl⟩)
    · obtain ⟨call, hcall⟩ := Classical.not_forall.mp hq
      obtain ⟨hmem, hin⟩ := Classical.not_imp.mp hcall
      obtain ⟨c, hc⟩ := List.mem_iff_getElem?.mp hmem
      refine hgoes s h hc ((Bool.not_eq_false _).mp hin) (.inr ?_)
      rintro x hx t rfl
      exact hload ⟨t, hx⟩
  obtain ⟨es, s', hes, hrun, hp, hq⟩ :=
    exec_drain (I := fun s => ¬ Promised s.backend s.calls) (Q := Quiet) left hstep h
  exact ⟨es, s', hes, hrun, hq, mt hq.agrees_iff.mp hp⟩

/-- **When the fields stay consistent.** If every step of a run of concurrent calls is in
time, the circuit is open exactly at five failures or more whenever no call is in progress.
If one is not, the calls in progress can finish so that it is not so in the end. -/
theorem fields_agree_inTime (url : String) (es : List ClockEvent) :
    (Along step InTime (start url) es → Throughout step (fun s => s.Quiet → s.backend.Agrees) (start url) es) ∧
      (¬ Along step InTime (start url) es → ∃ ds fs s, ds <+: es ∧ (∀ e ∈ fs, e.goesOn = true) ∧
        exec step (start url) (ds ++ fs) = some s ∧ s.Quiet ∧ ¬ s.backend.Agrees) := by
  constructor
  · intro h
    exact ((throughout_promised_iff url es).mpr h).mono fun _ hp hq => hq.agrees_iff.mpr hp
  · intro h
    obtain ⟨ds, m, hds, hm, hp⟩ := exists_of_not_throughout (mt (throughout_promised_iff url es).mp h)
    obtain ⟨fs, s, hfs, hrun, hq, hno⟩ := exists_quiet_of_not_promised hp
    exact ⟨ds, fs, s, hds, hfs, exec_append.mpr ⟨m, hm, hrun⟩, hq, hno⟩

/-- **Two overlaps.** Five failures between the two stores of a success are counted and
leave the circuit closed. A success between the count and the last store of a fifth failure
leaves it open with no failures. -/
theorem overlap_disagrees :
    (¬ ∀ (url : String) (es : List ClockEvent) (s : SharedBreaker), exec step (start url) es = some s →
        (∀ call ∈ s.calls, call.finished = true) → s.backend.Agrees) ∧
      ∃ es s, exec step (start "http://a") es = some s ∧ (∀ call ∈ s.calls, call.finished = true) ∧
        s.backend.circuitOpen = true ∧ s.backend.failures = 0 := by
  constructor
  · intro h
    have hagrees := h "http://a" ([.recordSuccess, .go 0] ++
      ([1, 2, 3, 4, 5].flatMap fun c => [.recordFailure, .go c, .unixNow c 100, .go c]) ++ [.go 5, .go 0])
      _ rfl (by decide)
    exact absurd hagrees (by decide)
  · exact ⟨(fiveFailures 100).dropLast ++ [.recordSuccess, .go 5, .go 5, .go 4], _, rfl, by decide, rfl, rfl⟩

end SharedBreaker

end Curf
