import Curf.Server.Listeners

/-!
# The global connection cap

Each listener has a semaphore of its own with `max_connections` permits, so a
listener alone keeps within the cap but the two together need not: what one has
taken is not missing in the other's semaphore. `cap_kept_iff` says which accepts
break the cap.
-/

namespace Curf

open Lib

/-- The other listener. -/
def Listener.other : Listener → Listener
  | .http => .https
  | .https => .http

namespace Server

/-- The live connection tasks of a listener. -/
def liveOn (s : Server) (l : Listener) : Nat := s.tasks.countP fun t => decide (t.listener = l)

/-- The permits of each listener are left in its semaphore or held by its tasks. -/
def Conserved (maxConns : Nat) (s : Server) : Prop := ∀ l, s.permits l + s.liveOn l = maxConns

variable {maxPerIp maxConns : Nat} {flags : SecurityFlags} {s s' : Server}

theorem conserved_start : Conserved maxConns (start maxPerIp flags maxConns) := fun _ => rfl

theorem liveOn_cons (t : ConnTask) (ts : List ConnTask) (l : Listener) (sc : SecurityChecker)
    (pm : Listener → Nat) :
    liveOn ⟨sc, pm, t :: ts⟩ l = liveOn ⟨sc, pm, ts⟩ l + if t.listener = l then 1 else 0 := by
  simp [liveOn, List.countP_cons]

/-- Each live task is on one of the listeners. -/
theorem length_tasks (s : Server) (l : Listener) : s.tasks.length = s.liveOn l + s.liveOn l.other := by
  unfold liveOn
  rw [List.length_eq_countP_add_countP (fun t : ConnTask => decide (t.listener = l))]
  congr 1
  refine List.countP_congr fun t _ => ?_
  cases l <;> cases t.listener <;> simp [Listener.other]

theorem Conserved.step (h : Conserved maxConns s) {e : ServerEvent} (hs : s.step e = some s') :
    Conserved maxConns s' := by
  intro l
  have hl := h l
  cases moves_of_step hs with
  | dropped => exact hl
  | refused => exact hl
  | @accepted l' ip hp hr =>
    rw [liveOn_cons]
    show s.setPermits l' (s.permits l' - 1) l + (s.liveOn l + if l' = l then 1 else 0) = maxConns
    by_cases he : l' = l
    · subst he
      simp only [setPermits, if_true]
      omega
    · simp only [setPermits, if_neg he, if_neg (Ne.symm he)]
      exact hl
  | handshakeOk ht => exact (congrArg (s.permits l + ·) (countP_replace_same ht rfl)).trans hl
  | handshakeFailed ht => exact (congrArg (s.permits l + ·) (countP_replace_same ht rfl)).trans hl
  | @finished t ht hph =>
    have hcount : (s.tasks.erase t).countP (fun u => decide (u.listener = l)) +
        (if t.listener = l then 1 else 0) = s.liveOn l := by
      have := countP_erase_add (p := fun u : ConnTask => decide (u.listener = l)) ht
      simpa only [decide_eq_true_eq, liveOn] using this
    show s.setPermits t.listener (s.permits t.listener + 1) l +
      (s.tasks.erase t).countP (fun u => decide (u.listener = l)) = maxConns
    by_cases he : t.listener = l
    · subst he
      rw [if_pos rfl] at hcount
      simp only [setPermits, if_true]
      omega
    · rw [if_neg he] at hcount
      simp only [setPermits, if_neg (Ne.symm he)]
      omega

/-- The connection is turned away, or the listener has more permits left than the
other listener has tasks. -/
def LeavesRoom (s : Server) : ServerEvent → Prop
  | .accept l ip => s.permits l = 0 ∨ s.security.Refuses ip ∨ s.liveOn l.other < s.permits l
  | _ => True

/-- Only an accept adds a task, and only one that finds a permit and is not refused. -/
theorem step_tasks_le_iff (h : Conserved maxConns s) (hle : s.tasks.length ≤ maxConns) {e : ServerEvent}
    (hs : s.step e = some s') : s'.tasks.length ≤ maxConns ↔ s.LeavesRoom e := by
  cases moves_of_step hs with
  | dropped hp => exact iff_of_true hle (.inl hp)
  | refused hp hr => exact iff_of_true hle (.inr (.inl hr))
  | @accepted l ip hp hr =>
    have hl := h l
    have htotal := s.length_tasks l
    simp only [LeavesRoom, hp, hr, false_or, List.length_cons]
    omega
  | handshakeOk ht =>
    refine iff_of_true ?_ trivial
    rw [List.length_cons, List.length_erase_of_mem ht]
    have := List.length_pos_of_mem ht
    omega
  | handshakeFailed ht =>
    refine iff_of_true ?_ trivial
    rw [List.length_cons, List.length_erase_of_mem ht]
    have := List.length_pos_of_mem ht
    omega
  | finished ht hph =>
    refine iff_of_true ?_ trivial
    rw [List.length_erase_of_mem ht]
    omega

/-- The cap that is kept: a listener's own tasks, and so twice the cap in all. -/
theorem liveOn_le {es : List ServerEvent} (hrun : exec step (start maxPerIp flags maxConns) es = some s) :
    (∀ l, s.liveOn l ≤ maxConns) ∧ s.tasks.length ≤ 2 * maxConns := by
  have h : Conserved maxConns s := exec_inv (fun _ _ _ h hs => h.step hs) conserved_start hrun
  have hle : ∀ l, s.liveOn l ≤ maxConns := fun l => by
    have := h l
    omega
  refine ⟨hle, ?_⟩
  have h1 := hle .http
  have h2 := hle .https
  rw [s.length_tasks .http]
  show s.liveOn .http + s.liveOn .https ≤ 2 * maxConns
  omega

/-- **The cap over both listeners** is kept throughout a run exactly when each accept
of a connection that is not turned away finds more permits left in its listener's
semaphore than the other listener has live tasks. -/
theorem cap_kept_iff (maxPerIp : Nat) (flags : SecurityFlags) (maxConns : Nat) (es : List ServerEvent) :
    Throughout step (fun s => s.tasks.length ≤ maxConns) (start maxPerIp flags maxConns) es ↔
      Along step LeavesRoom (start maxPerIp flags maxConns) es := by
  refine throughout_iff_along (I := Conserved maxConns) (fun _ _ _ h hs => h.step hs)
    (fun _ _ _ h hle hs => step_tasks_le_iff h hle hs) ?_ conserved_start (Nat.zero_le _)
  intro s e hs
  cases e with
  | accept l ip =>
    simp only [step] at hs
    split at hs
    · cases hs
    · split at hs <;> cases hs
  | handshakeOk ip => trivial
  | handshakeFailed ip => trivial
  | finish t => trivial

/-- **One connection on each listener**, where one is allowed. -/
theorem cap_exceeded :
    ¬ ∀ (maxPerIp : Nat) (flags : SecurityFlags) (maxConns : Nat) (es : List ServerEvent) (s : Server),
      exec step (start maxPerIp flags maxConns) es = some s → s.tasks.length ≤ maxConns := by
  intro h
  obtain ⟨s, hs⟩ : ∃ s, exec step (start 100 {} 1) [.accept .http (.v4 1), .accept .https (.v4 2)] = some s :=
    ⟨_, rfl⟩
  have hle := h 100 {} 1 _ s hs
  cases hs
  exact absurd hle (by decide)

end Server

end Curf
