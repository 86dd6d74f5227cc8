import Mathlib.Data.List.Perm.Subperm
import Curf.Lib.Exec
import Curf.Balancer.Pick

/-!
# Concurrent `round_robin` calls

All calls draw from one cursor. A call alternates between two atomic steps, a
`fetch_add` on the cursor and an `is_healthy` on the backend drawn, and gives up
after as many rounds as there are backends; the calls, the outcomes recorded for
backends and the clock interleave in any order.

`available_backend_found` says when a call cannot miss an available backend.
-/

namespace Curf

open Lib

/-- A `round_robin` call. `tried` are the positions it has found unhealthy. -/
inductive RoundRobinCall where
  /-- At the head of the loop, with `left` rounds to go after this one. -/
  | drawing (left : Nat) (tried : List Nat)
  /-- The position `idx` has been drawn. -/
  | checking (left : Nat) (idx : Nat) (tried : List Nat)
  | returned (answer : Option Nat)
  deriving DecidableEq, Repr

/-- A load balancer shared by calls, at the time `clock`. -/
structure SharedBalancer where
  backends : List Backend
  cursor : UInt64
  clock : UInt64
  calls : List RoundRobinCall
  deriving DecidableEq, Repr

inductive CursorEvent where
  | call
  /-- Call `c` draws from the cursor. -/
  | fetchAdd (c : Nat)
  /-- Call `c` asks the backend drawn. -/
  | isHealthy (c : Nat)
  | success (i : Nat)
  | failure (i : Nat)
  | tick (now : UInt64)
  deriving DecidableEq, Repr

namespace SharedBalancer

open LoadBalancer

def start (cfg : DomainConfig) (cursor : UInt64) : SharedBalancer := ⟨cfg.backends.map .new, cursor, 0, []⟩

/-- How call goes on after a backend has been found unhealthy. -/
def nextRound (left idx : Nat) (tried : List Nat) : RoundRobinCall :=
  match left with
  | 0 => .returned none
  | k + 1 => .drawing k (idx :: tried)

def step (s : SharedBalancer) : CursorEvent → Option SharedBalancer
  | .call =>
    -- `select` returns at once when there are no backends
    if s.backends.isEmpty then none
    else some { s with calls := s.calls ++ [.drawing (s.backends.length - 1) []] }
  | .fetchAdd c =>
    match s.calls[c]? with
    | some (.drawing left tried) =>
      some { s with
        cursor := s.cursor + 1
        calls := s.calls.set c (.checking left (s.cursor.toNat % s.backends.length) tried) }
    | _ => none
  | .isHealthy c =>
    match s.calls[c]? with
    | some (.checking left idx tried) =>
      let asked := ask s.backends idx s.clock
      some { s with
        backends := asked.2
        calls := s.calls.set c (if asked.1 then .returned (some idx) else nextRound left idx tried) }
    | _ => none
  | .success i => some { s with backends := s.backends.modify i .recordSuccess }
  | .failure i => some { s with backends := s.backends.modify i (·.recordFailure s.clock) }
  | .tick now => if now < s.clock then none else some { s with clock := now }

/-- What an event can do, one case for each way through the code. -/
inductive Moves (s : SharedBalancer) : CursorEvent → SharedBalancer → Prop
  | called (hne : s.backends.isEmpty = false) :
      Moves s .call { s with calls := s.calls ++ [.drawing (s.backends.length - 1) []] }
  | drew {c left : Nat} {tried : List Nat} (hc : s.calls[c]? = some (.drawing left tried)) :
      Moves s (.fetchAdd c)
        { s with
          cursor := s.cursor + 1
          calls := s.calls.set c (.checking left (s.cursor.toNat % s.backends.length) tried) }
  | found {c left idx : Nat} {tried : List Nat} (hc : s.calls[c]? = some (.checking left idx tried))
      (hup : AvailableAt s.backends s.clock idx) :
      Moves s (.isHealthy c)
        { s with
          backends := (ask s.backends idx s.clock).2
          calls := s.calls.set c (.returned (some idx)) }
  | missed {c left idx : Nat} {tried : List Nat} (hc : s.calls[c]? = some (.checking left idx tried))
      (hdown : ¬ AvailableAt s.backends s.clock idx) :
      Moves s (.isHealthy c)
        { s with
          backends := (ask s.backends idx s.clock).2
          calls := s.calls.set c (nextRound left idx tried) }
  | succeeded {i : Nat} : Moves s (.success i) { s with backends := s.backends.modify i .recordSuccess }
  | failed {i : Nat} :
      Moves s (.failure i) { s with backends := s.backends.modify i (·.recordFailure s.clock) }
  | ticked {now : UInt64} (hnow : ¬ now < s.clock) : Moves s (.tick now) { s with clock := now }

theorem moves_of_step {s s' : SharedBalancer} {e : CursorEvent} (hs : s.step e = some s') : Moves s e s' := by
  cases e with
  | call =>
    simp only [step] at hs
    split at hs
    · cases hs
    · rename_i hne; cases hs; exact .called (by simpa using hne)
  | fetchAdd c =>
    simp only [step] at hs
    split at hs
    · rename_i hc; cases hs; exact .drew hc
    · cases hs
  | isHealthy c =>
    simp only [step] at hs
    split at hs
    · rename_i left idx tried hc
      cases hs
      by_cases hup : AvailableAt s.backends s.clock idx
      · rw [if_pos (by rw [ask_fst]; exact decide_eq_true hup)]
        exact .found hc hup
      · rw [if_neg (by rw [ask_fst]; simpa using hup)]
        exact .missed hc hup
    · cases hs
  | success i => cases hs; exact .succeeded
  | failure i => cases hs; exact .failed
  | tick now =>
    simp only [step] at hs
    split at hs
    · cases hs
    · rename_i hnow; cases hs; exact .ticked hnow

/-- The backend in position `d` is available. -/
def Up (d : Nat) (s : SharedBalancer) : Prop := AvailableAt s.backends s.clock d

instance (d : Nat) : DecidablePred (Up d) := fun s =>
  inferInstanceAs (Decidable (AvailableAt s.backends s.clock d))

/-- The positions tried by call `c`, about to draw. -/
def triedBy (s : SharedBalancer) (c : Nat) : List Nat :=
  match s.calls[c]? with
  | some (.drawing _ tried) => tried
  | _ => []

/-- If call `c` draws, it draws a position it has not tried. -/
def DrawsFresh (c : Nat) (s : SharedBalancer) (e : CursorEvent) : Prop :=
  e = .fetchAdd c → s.cursor.toNat % s.backends.length ∉ s.triedBy c

instance (c : Nat) (s : SharedBalancer) (e : CursorEvent) : Decidable (DrawsFresh c s e) :=
  inferInstanceAs (Decidable (_ → _))

/-- The positions that a call has tried among `n` backends: different ones, none of
them the available backend `d`. -/
structure Tried (n d : Nat) (tried : List Nat) : Prop where
  nodup : tried.Nodup
  lt : ∀ i ∈ tried, i < n
  ne : d ∉ tried

/-- How far a call has come, none of its rounds being wasted. -/
def Searching (n d : Nat) : RoundRobinCall → Prop
  | .drawing left tried => Tried n d tried ∧ tried.length + left + 1 = n
  | .checking left idx tried => Tried n d tried ∧ tried.length + left + 1 = n ∧ idx < n ∧ idx ∉ tried
  | .returned answer => ∃ i, answer = some i

variable {n d : Nat} {tried : List Nat}

theorem tried_nil : Tried n d [] := ⟨List.nodup_nil, nofun, nofun⟩

theorem Tried.cons (h : Tried n d tried) {idx : Nat} (hlt : idx < n) (hnew : idx ∉ tried) (hd : idx ≠ d) :
    Tried n d (idx :: tried) := by
  refine ⟨List.nodup_cons.mpr ⟨hnew, h.nodup⟩, fun i hi => ?_, fun hmem => ?_⟩
  · rcases List.mem_cons.mp hi with rfl | hi
    · exact hlt
    · exact h.lt i hi
  · rcases List.mem_cons.mp hmem with rfl | hmem
    · exact hd rfl
    · exact h.ne hmem

/-- A call has not tried all backends as long as it has missed one. -/
theorem Tried.length_lt (h : Tried n d tried) (hd : d < n) : tried.length < n := by
  have hnd : (d :: tried).Nodup := List.nodup_cons.mpr ⟨h.ne, h.nodup⟩
  have hsub : d :: tried ⊆ List.range n := by
    intro i hi
    rcases List.mem_cons.mp hi with rfl | hi
    · exact List.mem_range.mpr hd
    · exact List.mem_range.mpr (h.lt i hi)
  have := (List.subperm_of_subset hnd hsub).length_le
  rw [List.length_cons, List.length_range] at this
  omega

theorem Searching.nextRound {left idx : Nat} (h : Searching n d (.checking left idx tried)) (hd : d < n)
    (hne : idx ≠ d) : Searching n d (nextRound left idx tried) := by
  obtain ⟨htried, hlen, hlt, hnew⟩ := h
  have hcons := htried.cons hlt hnew hne
  cases left with
  | zero =>
    have := hcons.length_lt hd
    rw [List.length_cons] at this
    omega
  | succ k =>
    refine ⟨hcons, ?_⟩
    rw [List.length_cons]
    omega

/-- Call `c` searches the backends, of which there are `n`. -/
def CallSearches (n d c : Nat) (s : SharedBalancer) : Prop :=
  s.backends.length = n ∧ ∃ call, s.calls[c]? = some call ∧ Searching n d call

variable {s s' : SharedBalancer} {c : Nat}

/-- A step of another call leaves call `c` where it is. -/
theorem CallSearches.set_other {bs : List Backend} {cur : UInt64} {c' : Nat} {call : RoundRobinCall}
    (h : CallSearches n d c s) (hbs : bs.length = s.backends.length) (hc : c' ≠ c) :
    CallSearches n d c ⟨bs, cur, s.clock, s.calls.set c' call⟩ := by
  obtain ⟨hn, x, hx, hsearch⟩ := h
  exact ⟨hbs.trans hn, x, by rw [List.getElem?_set_ne hc]; exact hx, hsearch⟩

/-- A step of call `c` itself. -/
theorem CallSearches.set_self {bs : List Backend} {cur : UInt64} {call : RoundRobinCall}
    (h : CallSearches n d c s) (hbs : bs.length = s.backends.length) (hcall : Searching n d call) :
    CallSearches n d c ⟨bs, cur, s.clock, s.calls.set c call⟩ := by
  obtain ⟨hn, x, hx, -⟩ := h
  have hlt := (List.getElem?_eq_some_iff.mp hx).1
  exact ⟨hbs.trans hn, call, List.getElem?_set_self hlt, hcall⟩

/-- Call `c` is the one that moves, or another is. -/
theorem CallSearches.set (h : CallSearches n d c s) {bs : List Backend} {cur : UInt64} {c' : Nat}
    {call call' : RoundRobinCall} (hbs : bs.length = s.backends.length) (hc : s.calls[c']? = some call)
    (hcall : Searching n d call → c' = c → Searching n d call') :
    CallSearches n d c ⟨bs, cur, s.clock, s.calls.set c' call'⟩ := by
  by_cases hself : c' = c
  · subst hself
    obtain ⟨-, x, hx, hsearch⟩ := id h
    obtain rfl := Option.some.inj (hc.symm.trans hx)
    exact h.set_self hbs (hcall hsearch rfl)
  · exact h.set_other hbs hself

theorem CallSearches.step (h : CallSearches n d c s) (hup : Up d s) {e : CursorEvent}
    (hfresh : DrawsFresh c s e) (hs : s.step e = some s') : CallSearches n d c s' := by
  have hn := h.1
  have hd : d < n := hn ▸ hup.lt
  cases moves_of_step hs with
  | called =>
    obtain ⟨x, hx, hsearch⟩ := h.2
    have hlt := (List.getElem?_eq_some_iff.mp hx).1
    exact ⟨hn, x, by rw [List.getElem?_append_left hlt]; exact hx, hsearch⟩
  | drew hc =>
    apply h.set rfl hc
    intro hsearch hself
    have hnew := hfresh (congrArg _ hself)
    rw [triedBy, ← hself, hc, hn] at hnew
    rw [hn]
    exact ⟨hsearch.1, hsearch.2, Nat.mod_lt _ (by omega), hnew⟩
  | found hc => exact h.set (List.length_modify ..) hc fun _ _ => ⟨_, rfl⟩
  | missed hc hdown =>
    refine h.set (List.length_modify ..) hc fun hsearch _ => hsearch.nextRound hd ?_
    rintro rfl
    exact hdown hup
  | succeeded => exact ⟨(List.length_modify ..).trans hn, h.2⟩
  | failed => exact ⟨(List.length_modify ..).trans hn, h.2⟩
  | ticked => exact h

/-! ## Calls end -/

/-- The event is a step of call `c`. -/
def own (c : Nat) : CursorEvent → Bool
  | .fetchAdd c' | .isHealthy c' => c' = c
  | _ => false

/-- The steps a call has before it at most. -/
def work : RoundRobinCall → Nat
  | .drawing left _ => 2 * left + 2
  | .checking left _ _ => 2 * left + 1
  | .returned _ => 0

theorem work_nextRound (left idx : Nat) (tried : List Nat) : work (nextRound left idx tried) = 2 * left := by
  cases left with
  | zero => rfl
  | succ k => simp only [nextRound, work]; omega

/-- An event that leaves the calls alone. -/
theorem work_frame {call : RoundRobinCall} {e : CursorEvent} (hc : s'.calls[c]? = some call)
    (he : own c e = false) :
    ∃ call', s'.calls[c]? = some call' ∧ (if own c e then 1 else 0) + work call' ≤ work call :=
  ⟨call, hc, by simp [he]⟩

/-- Call `c'` moves on, with less work before it. -/
theorem work_set {call x x' : RoundRobinCall} {c' : Nat} (hc : s.calls[c]? = some call)
    (hc' : s.calls[c']? = some x) (hw : 1 + work x' ≤ work x) :
    ∃ call', (s.calls.set c' x')[c]? = some call' ∧ (if c' = c then 1 else 0) + work call' ≤ work call := by
  by_cases he : c' = c
  · subst he
    obtain rfl := Option.some.inj (hc'.symm.trans hc)
    exact ⟨x', List.getElem?_set_self (List.getElem?_eq_some_iff.mp hc).1, by rw [if_pos rfl]; exact hw⟩
  · exact ⟨call, by rw [List.getElem?_set_ne he]; exact hc, by simp [he]⟩

theorem work_step {call : RoundRobinCall} (hc : s.calls[c]? = some call) {e : CursorEvent}
    (hs : s.step e = some s') :
    ∃ call', s'.calls[c]? = some call' ∧ (if own c e then 1 else 0) + work call' ≤ work call := by
  cases moves_of_step hs with
  | called =>
    have hlt := (List.getElem?_eq_some_iff.mp hc).1
    refine work_frame ?_ rfl
    rw [List.getElem?_append_left hlt]
    exact hc
  | drew hc' =>
    simp only [own, decide_eq_true_eq]
    exact work_set hc hc' (by simp only [work]; omega)
  | found hc' =>
    simp only [own, decide_eq_true_eq]
    exact work_set hc hc' (by simp only [work]; omega)
  | missed hc' =>
    simp only [own, decide_eq_true_eq]
    exact work_set hc hc' (by rw [work_nextRound]; simp only [work]; omega)
  | succeeded => exact work_frame hc rfl
  | failed => exact work_frame hc rfl
  | ticked => exact work_frame hc rfl

/-- A call takes no more steps than the work before it. -/
theorem work_run {es : List CursorEvent} {call : RoundRobinCall} (hc : s.calls[c]? = some call)
    (hrun : exec step s es = some s') :
    ∃ call', s'.calls[c]? = some call' ∧ es.countP (own c) + work call' ≤ work call := by
  induction es generalizing s call with
  | nil => cases hrun; exact ⟨call, hc, by simp⟩
  | cons e es ih =>
    obtain ⟨m, hm, hrun⟩ := exec_cons.mp hrun
    obtain ⟨callm, hcm, hle⟩ := work_step hc hm
    obtain ⟨call', hc', hle'⟩ := ih hcm hrun
    refine ⟨call', hc', ?_⟩
    rw [List.countP_cons]
    omega

/-- A call with work before it can go on. -/
theorem exists_own_step {call : RoundRobinCall} (hc : s.calls[c]? = some call) (hw : work call ≠ 0) :
    ∃ e, own c e = true ∧ (s.step e).isSome = true := by
  cases call with
  | drawing left tried => exact ⟨.fetchAdd c, by simp [own], by simp [step, hc]⟩
  | checking left idx tried => exact ⟨.isHealthy c, by simp [own], by simp [step, hc]⟩
  | returned answer => exact absurd rfl hw

/-! ## Completeness of the search -/

/-- **No available backend is missed.** Let all draws of a call be fresh and some
backend be available throughout. Then the call ends after two steps a round at
most, and it does not return `None`. -/
theorem available_backend_found {es : List CursorEvent} {n c d : Nat}
    (hcall : s.calls[c]? = some (.drawing n [])) (hn : s.backends.length = n + 1)
    (hup : Throughout step (Up d) s es) (hfresh : Along step (DrawsFresh c) s es)
    (hrun : exec step s es = some s') :
    ∃ call, s'.calls[c]? = some call ∧ es.countP (own c) + work call ≤ 2 * (n + 1) ∧
      (work call = 0 → ∃ i, call = .returned (some i)) := by
  have hstart : CallSearches (n + 1) d c s := ⟨hn, _, hcall, tried_nil, by simp⟩
  obtain ⟨-, x, hx, hsearch⟩ := exec_inv_along
    (P := fun s e => Up d s ∧ DrawsFresh c s e)
    (fun _ _ _ h hP hs => h.step hP.1 hP.2 hs) hstart (hup.along.and hfresh) hrun
  obtain ⟨call, hc, hwork⟩ := work_run hcall hrun
  obtain rfl := Option.some.inj (hx.symm.trans hc)
  refine ⟨x, hx, by simpa only [work, Nat.mul_add] using hwork, fun hw => ?_⟩
  cases x with
  | drawing left tried => cases hw
  | checking left idx tried => cases hw
  | returned answer =>
    obtain ⟨i, rfl⟩ := hsearch
    exact ⟨i, rfl⟩

/-- Of two backends the second is up. A call alone finds it in four steps. -/
theorem available_backend_found_alone :
    ∃ s s', exec step (start { backends := ["http://a", "http://b"] } 0)
        (List.replicate 5 (.failure 0) ++ [.call]) = some s ∧
      exec step s [.fetchAdd 0, .isHealthy 0, .fetchAdd 0, .isHealthy 0] = some s' ∧
      ∃ call, s'.calls[0]? = some call ∧ 4 + work call ≤ 4 := by
  obtain ⟨s, hs⟩ : ∃ s, exec step (start { backends := ["http://a", "http://b"] } 0)
    (List.replicate 5 (.failure 0) ++ [.call]) = some s := ⟨_, rfl⟩
  obtain ⟨s', hs'⟩ : ∃ s', exec step s [.fetchAdd 0, .isHealthy 0, .fetchAdd 0, .isHealthy 0] = some s' := by
    cases hs; exact ⟨_, rfl⟩
  have hcall : s.calls[0]? = some (.drawing 1 []) := by cases hs; rfl
  have hn : s.backends.length = 1 + 1 := by cases hs; rfl
  have hup : Throughout step (Up 1) s [.fetchAdd 0, .isHealthy 0, .fetchAdd 0, .isHealthy 0] := by
    cases hs; decide
  have hfresh : Along step (DrawsFresh 0) s [.fetchAdd 0, .isHealthy 0, .fetchAdd 0, .isHealthy 0] := by
    cases hs; decide
  obtain ⟨call, hc, hle, -⟩ := available_backend_found hcall hn hup hfresh hs'
  exact ⟨s, s', hs, hs', call, hc, hle⟩

/-- **Two calls in step.** The first backend is down and the second up; the other
call draws the second each time, and the call returns `None`. -/
theorem interleaved_call_misses_backend :
    ¬ ∀ (cfg : DomainConfig) (cursor : UInt64) (p es : List CursorEvent) (s s' : SharedBalancer) (c d : Nat),
      cfg.backends ≠ [] → exec step (start cfg cursor) p = some s →
      s.calls[c]? = some (.drawing (cfg.backends.length - 1) []) →
      exec step s es = some s' → Throughout step (Up d) s es →
      s'.calls[c]? ≠ some (.returned none) := by
  intro h
  obtain ⟨s, hs⟩ : ∃ s, exec step (start { backends := ["http://a", "http://b"] } 0)
    (List.replicate 5 (.failure 0) ++ [.call, .call]) = some s := ⟨_, rfl⟩
  have hall := fun s' => h _ _ _ [.fetchAdd 0, .fetchAdd 1, .isHealthy 0, .isHealthy 1, .fetchAdd 0,
    .isHealthy 0] s s' 0 1 (by decide) hs
  cases hs
  exact hall _ rfl rfl (by decide) (by decide)

end SharedBalancer

end Curf
