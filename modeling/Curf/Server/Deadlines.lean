import Curf.Server.GlobalCap

/-!
# How long connections live

A task has 10 seconds for the TLS handshake and 60 seconds to serve its connection,
whatever comes over it, so that an HTTP connection lives for 60 seconds at most and an
HTTPS connection for 70. `Timed` is the server with a clock, in milliseconds, and a
timer for each live task; no time passes while a timer is due (`time_passes` says that
time can always go on).

`connections_turn_over` bounds the live connections by those accepted lately, and
`blocked_address_gone` says how long an address is still served that has been blocked.
-/

namespace Curf

open Lib

/-- The timeouts of a task. -/
def handshakeTimeout : Nat := 10 * 1000

def servingTimeout : Nat := 60 * 1000

/-- A live task, when it was spawned and when its present timeout is up. -/
structure Timer where
  task : ConnTask
  since : Nat
  due : Nat
  deriving DecidableEq, Repr

structure Timed where
  server : Server
  clock : Nat
  timers : List Timer

inductive TimedEvent where
  | accept (l : Listener) (ip : IpAddr)
  | handshakeOk (x : Timer)
  /-- The handshake fails, or its time is up. -/
  | handshakeFailed (x : Timer)
  /-- The connection ends, or its time is up. -/
  | finish (x : Timer)
  | tick (now : Nat)

instance (sc : SecurityChecker) (ip : IpAddr) : Decidable (sc.Refuses ip) :=
  decidable_of_iff (sc.maxConnectionsPerIp ≤ sc.connectionCount ip ∨ (sc.blockedIps ip).isSome = true)
    SecurityChecker.refuses_iff.symm

namespace Timed

def start (maxConnectionsPerIp : Nat) (flags : SecurityFlags) (maxConns : Nat) : Timed :=
  ⟨.start maxConnectionsPerIp flags maxConns, 0, []⟩

/-- The timeout that a task of the listener starts with. -/
def firstTimeout : Listener → Nat
  | .http => servingTimeout
  | .https => handshakeTimeout

/-- The timers after that of `x` has been set anew. -/
def reset (s : Timed) (x : Timer) (ph : TaskPhase) (due : Nat) : List Timer :=
  { x with task := { x.task with phase := ph }, due } :: s.timers.erase x

/-- The timer belongs to a running handshake. -/
def Handshaking (s : Timed) (x : Timer) : Prop := x ∈ s.timers ∧ x.task = ⟨x.task.ip, .https, .handshake⟩

instance (s : Timed) (x : Timer) : Decidable (s.Handshaking x) := inferInstanceAs (Decidable (_ ∧ _))

def step (s : Timed) : TimedEvent → Option Timed
  | .accept l ip =>
    let timers :=
      if s.server.permits l = 0 ∨ s.server.security.Refuses ip then s.timers
      else ⟨⟨ip, l, l.firstPhase⟩, s.clock, s.clock + firstTimeout l⟩ :: s.timers
    (s.server.step (.accept l ip)).map fun server => { s with server, timers }
  | .handshakeOk x =>
    if s.Handshaking x then
      (s.server.step (.handshakeOk x.task.ip)).map fun server =>
        { s with server, timers := s.reset x .serving (s.clock + servingTimeout) }
    else none
  | .handshakeFailed x =>
    if s.Handshaking x then
      (s.server.step (.handshakeFailed x.task.ip)).map fun server =>
        { s with server, timers := s.reset x .failed s.clock }
    else none
  | .finish x =>
    if x ∈ s.timers then
      (s.server.step (.finish x.task)).map fun server => { s with server, timers := s.timers.erase x }
    else none
  | .tick now => if s.clock ≤ now ∧ ∀ x ∈ s.timers, now ≤ x.due then some { s with clock := now } else none

/-- What an event can do, one case for each way through the code. -/
inductive Moves (s : Timed) : TimedEvent → Timed → Prop
  | turnedAway {l : Listener} {ip : IpAddr} {server : Server} (hserver : s.server.step (.accept l ip) = some server)
      (hr : s.server.permits l = 0 ∨ s.server.security.Refuses ip) : Moves s (.accept l ip) { s with server }
  | accepted {l : Listener} {ip : IpAddr} {server : Server} (hserver : s.server.step (.accept l ip) = some server)
      (hp : s.server.permits l ≠ 0) (hr : ¬ s.server.security.Refuses ip) :
      Moves s (.accept l ip)
        { s with
          server
          timers := ⟨⟨ip, l, l.firstPhase⟩, s.clock, s.clock + firstTimeout l⟩ :: s.timers }
  | handshakeOk {x : Timer} {server : Server} (hx : s.Handshaking x)
      (hserver : s.server.step (.handshakeOk x.task.ip) = some server) :
      Moves s (.handshakeOk x) { s with server, timers := s.reset x .serving (s.clock + servingTimeout) }
  | handshakeFailed {x : Timer} {server : Server} (hx : s.Handshaking x)
      (hserver : s.server.step (.handshakeFailed x.task.ip) = some server) :
      Moves s (.handshakeFailed x) { s with server, timers := s.reset x .failed s.clock }
  | finished {x : Timer} {server : Server} (hx : x ∈ s.timers)
      (hserver : s.server.step (.finish x.task) = some server) :
      Moves s (.finish x) { s with server, timers := s.timers.erase x }
  | ticked {now : Nat} (hnow : s.clock ≤ now) (hdue : ∀ x ∈ s.timers, now ≤ x.due) :
      Moves s (.tick now) { s with clock := now }

theorem moves_of_step {s s' : Timed} {e : TimedEvent} (hs : s.step e = some s') : Moves s e s' := by
  cases e with
  | accept l ip =>
    obtain ⟨server, hserver, rfl⟩ := Option.map_eq_some_iff.mp hs
    by_cases hr : s.server.permits l = 0 ∨ s.server.security.Refuses ip
    · simp only [if_pos hr]; exact .turnedAway hserver hr
    · simp only [if_neg hr]; exact .accepted hserver (not_or.mp hr).1 (not_or.mp hr).2
  | handshakeOk x =>
    simp only [step] at hs
    split at hs
    · rename_i hx
      obtain ⟨server, hserver, rfl⟩ := Option.map_eq_some_iff.mp hs
      exact .handshakeOk hx hserver
    · cases hs
  | handshakeFailed x =>
    simp only [step] at hs
    split at hs
    · rename_i hx
      obtain ⟨server, hserver, rfl⟩ := Option.map_eq_some_iff.mp hs
      exact .handshakeFailed hx hserver
    · cases hs
  | finish x =>
    simp only [step] at hs
    split at hs
    · rename_i hx
      obtain ⟨server, hserver, rfl⟩ := Option.map_eq_some_iff.mp hs
      exact .finished hx hserver
    · cases hs
  | tick now =>
    simp only [step] at hs
    split at hs
    · rename_i hnow; cases hs; exact .ticked hnow.1 hnow.2
    · cases hs

/-- The event of the server behind it. -/
def serverEvent : TimedEvent → Option ServerEvent
  | .accept l ip => some (.accept l ip)
  | .handshakeOk x => some (.handshakeOk x.task.ip)
  | .handshakeFailed x => some (.handshakeFailed x.task.ip)
  | .finish x => some (.finish x.task)
  | .tick _ => none

variable {maxPerIp maxConns : Nat} {flags : SecurityFlags} {s s' m : Timed} {e : TimedEvent}
  {es ds : List TimedEvent}

/-- Behind a run with a clock is a run of the server. -/
theorem server_run (hrun : exec step s es = some s') :
    exec Server.step s.server (es.filterMap serverEvent) = some s'.server := by
  induction es generalizing s with
  | nil => cases hrun; rfl
  | cons e es ih =>
    obtain ⟨m, hm, hrun⟩ := exec_cons.mp hrun
    have hrest := ih hrun
    cases moves_of_step hm with
    | turnedAway hserver => exact exec_cons.mpr ⟨_, hserver, hrest⟩
    | accepted hserver => exact exec_cons.mpr ⟨_, hserver, hrest⟩
    | handshakeOk hx hserver => exact exec_cons.mpr ⟨_, hserver, hrest⟩
    | handshakeFailed hx hserver => exact exec_cons.mpr ⟨_, hserver, hrest⟩
    | finished hx hserver => exact exec_cons.mpr ⟨_, hserver, hrest⟩
    | ticked => exact hrest

/-! ## Timers -/

/-- The longest a connection of the listener lives. -/
def lifetime : Listener → Nat
  | .http => servingTimeout
  | .https => handshakeTimeout + servingTimeout

/-- The time a task has from its start to the end of its present timeout. -/
def allowance (t : ConnTask) : Nat :=
  match t.listener, t.phase with
  | .http, _ => servingTimeout
  | .https, .serving => handshakeTimeout + servingTimeout
  | .https, .handshake | .https, .failed => handshakeTimeout

theorem allowance_le (t : ConnTask) : allowance t ≤ lifetime t.listener := by
  unfold allowance lifetime
  split <;> simp_all [handshakeTimeout, servingTimeout]

theorem allowance_first (ip : IpAddr) (l : Listener) : allowance ⟨ip, l, l.firstPhase⟩ = firstTimeout l := by
  cases l <;> rfl

/-- Each live task has its timer, which is not past due. -/
structure OnTime (s : Timed) : Prop where
  perm : (s.timers.map (·.task)).Perm s.server.tasks
  since : ∀ x ∈ s.timers, x.since ≤ s.clock
  due : ∀ x ∈ s.timers, s.clock ≤ x.due
  allowed : ∀ x ∈ s.timers, x.due ≤ x.since + allowance x.task
  https : ∀ x ∈ s.timers, x.task.phase = .handshake → x.task.listener = .https

theorem onTime_start : OnTime (start maxPerIp flags maxConns) := ⟨.nil, nofun, nofun, nofun, nofun⟩

theorem map_erase_perm {timers : List Timer} {x : Timer} (hx : x ∈ timers) :
    ((timers.erase x).map (·.task)).Perm ((timers.map (·.task)).erase x.task) := by
  have hperm := (List.perm_cons_erase hx).map (·.task)
  have := hperm.erase x.task
  rw [List.map_cons, List.erase_cons_head] at this
  exact this.symm

/-- A timer is set anew. -/
theorem OnTime.reset (h : OnTime s) {x : Timer} {ph : TaskPhase} {due : Nat} {server : Server} (hx : x ∈ s.timers)
    (htasks : server.tasks = { x.task with phase := ph } :: s.server.tasks.erase x.task)
    (hph : ph ≠ .handshake) (hdue : s.clock ≤ due)
    (hallowed : due ≤ x.since + allowance { x.task with phase := ph }) :
    OnTime { s with server, timers := s.reset x ph due } where
  perm := by
    rw [htasks, Timed.reset, List.map_cons]
    exact ((map_erase_perm hx).trans (h.perm.erase _)).cons _
  since := by
    rw [Timed.reset, List.forall_mem_cons]
    exact ⟨h.since x hx, fun y hy => h.since y (List.mem_of_mem_erase hy)⟩
  due := by
    rw [Timed.reset, List.forall_mem_cons]
    exact ⟨hdue, fun y hy => h.due y (List.mem_of_mem_erase hy)⟩
  allowed := by
    rw [Timed.reset, List.forall_mem_cons]
    exact ⟨hallowed, fun y hy => h.allowed y (List.mem_of_mem_erase hy)⟩
  https := by
    rw [Timed.reset, List.forall_mem_cons]
    exact ⟨fun he => absurd he hph, fun y hy => h.https y (List.mem_of_mem_erase hy)⟩

theorem OnTime.step (h : OnTime s) (hs : s.step e = some s') : OnTime s' := by
  cases moves_of_step hs with
  | turnedAway hserver hr =>
    have htasks := Server.step_refused hr hserver
    exact ⟨htasks ▸ h.perm, h.since, h.due, h.allowed, h.https⟩
  | @accepted l ip server hserver hp hr =>
    have htasks : server.tasks = ⟨ip, l, l.firstPhase⟩ :: s.server.tasks := by
      cases Server.moves_of_step hserver with
      | dropped hp' => exact absurd hp' hp
      | refused _ hr' => exact absurd hr' hr
      | accepted => rfl
    refine ⟨?_, ?_, ?_, ?_, ?_⟩
    · rw [htasks]; exact h.perm.cons _
    · rw [List.forall_mem_cons]; exact ⟨Nat.le_refl _, h.since⟩
    · rw [List.forall_mem_cons]; exact ⟨Nat.le_add_right _ _, h.due⟩
    · rw [List.forall_mem_cons, allowance_first]; exact ⟨Nat.le_refl _, h.allowed⟩
    · rw [List.forall_mem_cons]
      refine ⟨fun he => ?_, h.https⟩
      cases l
      · cases he
      · rfl
  | @handshakeOk x server hx hserver =>
    obtain ⟨⟨ip, l, ph⟩, since, due⟩ := x
    obtain ⟨hmem, ht⟩ := hx
    cases ht
    have hdue := h.due _ hmem
    have hallowed := h.allowed _ hmem
    refine h.reset hmem ?_ (by simp) (Nat.le_add_right _ _) ?_
    · cases Server.moves_of_step hserver
      rfl
    · simp only [allowance] at hdue hallowed ⊢
      omega
  | @handshakeFailed x server hx hserver =>
    obtain ⟨⟨ip, l, ph⟩, since, due⟩ := x
    obtain ⟨hmem, ht⟩ := hx
    cases ht
    have hdue := h.due _ hmem
    have hallowed := h.allowed _ hmem
    refine h.reset hmem ?_ (by simp) (Nat.le_refl _) ?_
    · cases Server.moves_of_step hserver
      rfl
    · simp only [allowance] at hdue hallowed ⊢
      omega
  | @finished x server hx hserver =>
    have htasks : server.tasks = s.server.tasks.erase x.task := by
      cases Server.moves_of_step hserver
      rfl
    refine ⟨?_, fun y hy => h.since y (List.mem_of_mem_erase hy), fun y hy => h.due y (List.mem_of_mem_erase hy),
      fun y hy => h.allowed y (List.mem_of_mem_erase hy), fun y hy => h.https y (List.mem_of_mem_erase hy)⟩
    rw [htasks]
    exact (map_erase_perm hx).trans (h.perm.erase _)
  | ticked hnow hdue =>
    exact ⟨h.perm, fun x hx => Nat.le_trans (h.since x hx) hnow, hdue, h.allowed, h.https⟩

/-- No timer is older than the connections of its listener get. -/
theorem OnTime.clock_le (h : OnTime s) {x : Timer} (hx : x ∈ s.timers) :
    s.clock ≤ x.since + lifetime x.task.listener := by
  have := h.due x hx
  have := h.allowed x hx
  have := allowance_le x.task
  omega

/-- The steps a task has before it at most. -/
def work (x : Timer) : Nat := if x.task.phase = .handshake then 2 else 1

/-- **Time passes.** A timer that is due can be served, so that no run is stuck in time. -/
theorem time_passes (h : OnTime s) {now : Nat} (hnow : s.clock ≤ now) :
    ∃ es s', exec step s es = some s' ∧ s'.clock = now := by
  have hdrain : ∀ m, OnTime m ∧ m.clock = s.clock → ¬ m.timers = [] → ∃ e m', True ∧ step m e = some m' ∧
      (OnTime m' ∧ m'.clock = s.clock) ∧ (m'.timers.map work).sum < (m.timers.map work).sum := by
    rintro m ⟨hm, hclock⟩ hne
    obtain ⟨⟨⟨ip, l, ph⟩, since, due⟩, rest, hrest⟩ := List.exists_cons_of_ne_nil hne
    have hmem : ⟨⟨ip, l, ph⟩, since, due⟩ ∈ m.timers := by rw [hrest]; exact List.mem_cons_self
    have htask : ⟨ip, l, ph⟩ ∈ m.server.tasks := hm.perm.mem_iff.mp (List.mem_map_of_mem hmem)
    by_cases hph : ph = .handshake
    · subst hph
      obtain rfl : l = .https := hm.https _ hmem rfl
      obtain ⟨m', hs⟩ : ∃ m', step m (.handshakeFailed ⟨⟨ip, .https, .handshake⟩, since, due⟩) = some m' :=
        Option.isSome_iff_exists.mp (by simp [step, Handshaking, hmem, Server.step, htask])
      refine ⟨_, m', trivial, hs, ⟨hm.step hs, ?_⟩, ?_⟩
      · cases moves_of_step hs; exact hclock
      · cases moves_of_step hs
        simp [reset, hrest, work]
    · obtain ⟨m', hs⟩ : ∃ m', step m (.finish ⟨⟨ip, l, ph⟩, since, due⟩) = some m' :=
        Option.isSome_iff_exists.mp (by simp [step, hmem, Server.step, htask, hph])
      refine ⟨_, m', trivial, hs, ⟨hm.step hs, ?_⟩, ?_⟩
      · cases moves_of_step hs; exact hclock
      · cases moves_of_step hs
        simp [hrest, work, hph]
  obtain ⟨es, m, -, hrun, ⟨-, hclock⟩, hempty⟩ := exec_drain (fun m : Timed => (m.timers.map work).sum) hdrain ⟨h, rfl⟩
  refine ⟨es ++ [.tick now], { m with clock := now }, exec_snoc.mpr ⟨m, hrun, ?_⟩, rfl⟩
  have hno : ∀ x ∈ m.timers, now ≤ x.due := by rw [hempty]; simp
  exact if_pos ⟨hclock ▸ hnow, hno⟩

/-! ## Turnover -/

/-- The event brings a connection that satisfies `q`. -/
def accepts (q : IpAddr → Listener → Bool) : TimedEvent → Bool
  | .accept l ip => q ip l
  | _ => false

/-- The live connections that satisfy `q`. -/
def live (q : IpAddr → Listener → Bool) (s : Timed) : Nat := s.server.tasks.countP fun t => q t.ip t.listener

/-- The timer is of a connection that satisfies `q` and was spawned after `τ`. -/
def Younger (q : IpAddr → Listener → Bool) (τ : Nat) (x : Timer) : Bool :=
  q x.task.ip x.task.listener && τ < x.since

/-- Every young timer has been brought by an accept, from an address that is not refused. -/
theorem younger_step (q : IpAddr → Listener → Bool) (τ : Nat) (hs : s.step e = some s') :
    s'.timers.countP (Younger q τ) ≤ s.timers.countP (Younger q τ) ∨
      ∃ l ip, e = .accept l ip ∧ q ip l = true ∧ ¬ s.server.security.Refuses ip ∧
        s'.timers.countP (Younger q τ) ≤ s.timers.countP (Younger q τ) + 1 := by
  cases moves_of_step hs with
  | turnedAway => exact .inl (Nat.le_refl _)
  | @accepted l ip server hserver hp hr =>
    rw [List.countP_cons]
    by_cases hq : q ip l = true
    · exact .inr ⟨l, ip, rfl, hq, hr, by split <;> omega⟩
    · rw [if_neg (by simp [Younger, hq])]
      exact .inl (Nat.le_refl _)
  | handshakeOk hx => exact .inl (Nat.le_of_eq (countP_replace_same hx.1 rfl))
  | handshakeFailed hx => exact .inl (Nat.le_of_eq (countP_replace_same hx.1 rfl))
  | finished hx => exact .inl List.erase_sublist.countP_le
  | ticked => exact .inl (Nat.le_refl _)

theorem younger_run (q : IpAddr → Listener → Bool) (τ : Nat) (hrun : exec step s es = some s') :
    s'.timers.countP (Younger q τ) ≤ s.timers.countP (Younger q τ) + es.countP (accepts q) := by
  refine exec_inv_past (I := fun past m =>
    m.timers.countP (Younger q τ) ≤ s.timers.countP (Younger q τ) + past.countP (accepts q))
    (fun past m e m' h hs => ?_) (Nat.le_add_right _ _) hrun
  rw [List.countP_append, List.countP_singleton]
  rcases younger_step q τ hs with hsame | ⟨l, ip, rfl, hq, -, hmore⟩
  · omega
  · rw [if_pos (show accepts q (.accept l ip) = true from hq)]
    omega

theorem onTime_of_run (hrun : exec step (start maxPerIp flags maxConns) es = some s) : OnTime s :=
  exec_inv (fun _ _ _ h hs => h.step hs) onTime_start hrun

/-- No timer has been set in the future. -/
theorem OnTime.none_younger (h : OnTime s) (q : IpAddr → Listener → Bool) :
    s.timers.countP (Younger q s.clock) = 0 := by
  refine List.countP_eq_zero.mpr fun x hx => ?_
  have := h.since x hx
  simp only [Younger, Bool.and_eq_true, decide_eq_true_eq]
  omega

/-- Connections that are alive when those of the time `τ` have had their time are younger. -/
theorem OnTime.live_le (h : OnTime s) {q : IpAddr → Listener → Bool} {limit τ : Nat}
    (hlimit : ∀ ip l, q ip l = true → lifetime l ≤ limit) (hlong : τ + limit < s.clock) :
    s.live q ≤ s.timers.countP (Younger q τ) := by
  rw [live, ← h.perm.countP_eq, List.countP_map]
  refine List.countP_mono_left fun x hx hq => ?_
  have := h.clock_le hx
  have := hlimit x.task.ip x.task.listener hq
  simp only [Younger, Bool.and_eq_true, decide_eq_true_eq]
  exact ⟨hq, by omega⟩

theorem OnTime.live_le_accepts {q : IpAddr → Listener → Bool} {limit : Nat} (hm : OnTime m)
    (hlimit : ∀ ip l, q ip l = true → lifetime l ≤ limit) (hes : exec Timed.step m es = some s)
    (hlong : m.clock + limit < s.clock) : s.live q ≤ es.countP (accepts q) := by
  have h : OnTime s := exec_inv (fun _ _ _ h hs => h.step hs) hm hes
  have hlive := h.live_le hlimit hlong
  have hyoung := younger_run q m.clock hes
  have hold := hm.none_younger q
  omega

/-- **Connections turn over.** Let `limit` be the longest that connections of a kind live,
60 seconds over HTTP and 70 over HTTPS. Whatever else happens, no more of them are alive
than have come in the last `limit` milliseconds. -/
theorem connections_turn_over {q : IpAddr → Listener → Bool} {limit : Nat}
    (hlimit : ∀ ip l, q ip l = true → lifetime l ≤ limit)
    (hds : exec step (start maxPerIp flags maxConns) ds = some m) (hes : exec step m es = some s)
    (hlong : m.clock + limit < s.clock) : s.live q ≤ es.countP (accepts q) :=
  (onTime_of_run hds).live_le_accepts hlimit hes hlong

/-- A connection over HTTPS takes all of its time, and one over HTTP has just come. -/
theorem connections_turn_over_two :
    ∃ s, exec step (start 5 {} 3) [.accept .https (.v4 1), .tick 5000,
        .handshakeOk ⟨⟨.v4 1, .https, .handshake⟩, 0, 10000⟩, .tick 65000,
        .finish ⟨⟨.v4 1, .https, .serving⟩, 0, 65000⟩, .accept .http (.v4 2), .tick 70001] = some s ∧
      s.live (fun _ _ => true) = 1 ∧ s.live (fun _ _ => true) ≤ 2 := by
  obtain ⟨s, hs⟩ : ∃ s, exec step (start 5 {} 3) [.accept .https (.v4 1), .tick 5000,
    .handshakeOk ⟨⟨.v4 1, .https, .handshake⟩, 0, 10000⟩, .tick 65000,
    .finish ⟨⟨.v4 1, .https, .serving⟩, 0, 65000⟩, .accept .http (.v4 2), .tick 70001] = some s := ⟨_, rfl⟩
  have hlimit : ∀ (_ : IpAddr) (l : Listener), true = true → lifetime l ≤ 70000 := by
    intro _ l _
    cases l <;> decide
  have hlong : (start 5 {} 3).clock + 70000 < s.clock := by cases hs; decide
  exact ⟨s, hs, by cases hs; rfl, connections_turn_over hlimit (exec_nil (start 5 {} 3)) hs hlong⟩

/-- **An address comes free.** If an address has sent no connection for 70 seconds, none of
it is counted, and it is refused only if it is blocked, or if no address is let in at all. -/
theorem quiet_address_free {ip : IpAddr} (hds : exec step (start maxPerIp flags maxConns) ds = some m)
    (hes : exec step m es = some s) (hlong : m.clock + lifetime .https < s.clock)
    (hquiet : ∀ l, .accept l ip ∉ es) :
    s.server.security.connectionCount ip = 0 ∧
      (s.server.security.Refuses ip ↔ maxPerIp = 0 ∨ s.server.security.Blocked ip) := by
  have hrun : exec step (start maxPerIp flags maxConns) (ds ++ es) = some s := exec_append.mpr ⟨m, hds, hes⟩
  have hcounted := Server.counted_of_run (server_run hrun)
  have hnone : es.countP (accepts fun x _ => x = ip) = 0 := by
    refine List.countP_eq_zero.mpr fun e he ha => ?_
    cases e with
    | accept l x =>
      rw [of_decide_eq_true ha] at he
      exact hquiet l he
    | handshakeOk x => cases ha
    | handshakeFailed x => cases ha
    | finish x => cases ha
    | tick now => cases ha
  have hlimit : ∀ x l, decide (x = ip) = true → lifetime l ≤ lifetime .https := by
    intro _ l _
    cases l <;> decide
  have hlive := (onTime_of_run hds).live_le_accepts hlimit hes hlong
  have hzero : s.server.security.connectionCount ip = 0 := by
    rw [hcounted.count ip]
    exact Nat.le_zero.mp (hnone ▸ hlive)
  rw [SecurityChecker.refuses_iff, hcounted.max_eq, hzero, Nat.le_zero]
  exact ⟨rfl, Iff.rfl⟩

/-- An address at its limit, whose connection is given up after 60 seconds. -/
theorem quiet_address_free_again :
    ∃ m s, exec step (start 1 {} 3) [.accept .http (.v4 1)] = some m ∧ m.server.security.Refuses (.v4 1) ∧
      exec step m [.tick 60000, .finish ⟨⟨.v4 1, .http, .serving⟩, 0, 60000⟩, .accept .http (.v4 2),
        .tick 70001] = some s ∧ ¬ s.server.security.Refuses (.v4 1) := by
  obtain ⟨m, hm⟩ : ∃ m, exec step (start 1 {} 3) [.accept .http (.v4 1)] = some m := ⟨_, rfl⟩
  obtain ⟨s, hs⟩ : ∃ s, exec step m [.tick 60000, .finish ⟨⟨.v4 1, .http, .serving⟩, 0, 60000⟩,
    .accept .http (.v4 2), .tick 70001] = some s := by cases hm; exact ⟨_, rfl⟩
  have hlong : m.clock + lifetime .https < s.clock := by cases hm; cases hs; decide
  have hquiet : ∀ l, .accept l (.v4 1) ∉ ([.tick 60000, .finish ⟨⟨.v4 1, .http, .serving⟩, 0, 60000⟩,
      .accept .http (.v4 2), .tick 70001] : List TimedEvent) := by
    intro l
    cases l <;> simp
  have hfree := (quiet_address_free hm hs hlong hquiet).2
  have hnot : ¬ s.server.security.Blocked (.v4 1) := by cases hm; cases hs; exact nofun
  refine ⟨m, s, hm, by cases hm; decide, hs, fun hr => ?_⟩
  rcases hfree.mp hr with hz | hb
  · cases hz
  · exact hnot hb

/-! ## After a block -/

/-- No block is lifted. -/
theorem blocked_server {server server' : Server} {ip : IpAddr} {e : ServerEvent} (hb : server.security.Blocked ip)
    (hs : server.step e = some server') : server'.security.Blocked ip := by
  rcases Server.step_security hs with h | h
  · rw [SecurityChecker.Blocked, h.blocked]
    exact hb
  · rw [h]
    by_cases hip : ip = e.ip
    · subst hip
      cases hon : server.security.flags.blockTlsAbusers with
      | false => rw [SecurityChecker.recordTlsFailure_off hon]; exact hb
      | true => exact (SecurityChecker.recordTlsFailure_on e.ip hon).2.mpr (.inl hb)
    · rw [SecurityChecker.Blocked, ((server.security.recordTlsFailure_frame e.ip).2.2.2 ip hip).2]
      exact hb

theorem blocked_step {ip : IpAddr} (hb : s.server.security.Blocked ip) (hs : s.step e = some s') :
    s'.server.security.Blocked ip := by
  cases moves_of_step hs with
  | turnedAway hserver => exact blocked_server hb hserver
  | accepted hserver => exact blocked_server hb hserver
  | handshakeOk hx hserver => exact blocked_server hb hserver
  | handshakeFailed hx hserver => exact blocked_server hb hserver
  | finished hx hserver => exact blocked_server hb hserver
  | ticked => exact hb

/-- **A blocked address is gone** 70 seconds later, for good: the connections that it had
when it was blocked have ended, and there are no others. -/
theorem blocked_address_gone {ip : IpAddr} (hds : exec step (start maxPerIp flags maxConns) ds = some m)
    (hb : m.server.security.Blocked ip) (hes : exec step m es = some s)
    (hlong : m.clock + lifetime .https < s.clock) :
    s.server.security.Blocked ip ∧ s.server.security.connectionCount ip = 0 ∧ ∀ t ∈ s.server.tasks, t.ip ≠ ip := by
  have hm := onTime_of_run hds
  have h : OnTime s := exec_inv (fun _ _ _ h hs => h.step hs) hm hes
  have hcounted := Server.counted_of_run (server_run (exec_append.mpr ⟨m, hds, hes⟩))
  have hinv : s.server.security.Blocked ip ∧ s.timers.countP (Younger (fun x _ => x = ip) m.clock) = 0 := by
    refine exec_inv (I := fun s => s.server.security.Blocked ip ∧
      s.timers.countP (Younger (fun x _ => x = ip) m.clock) = 0)
      (fun s e s' hI hs => ⟨blocked_step hI.1 hs, ?_⟩) ⟨hb, hm.none_younger _⟩ hes
    rcases younger_step (fun x _ => x = ip) m.clock hs with hsame | ⟨l, x, -, hx, hr, -⟩
    · have := hI.2
      omega
    · -- a blocked address is refused
      obtain rfl := of_decide_eq_true hx
      exact absurd (SecurityChecker.refuses_iff.mpr (.inr hI.1)) hr
  have hlimit : ∀ x l, decide (x = ip) = true → lifetime l ≤ lifetime .https := by
    intro _ l _
    cases l <;> decide
  have hnone : s.live (fun x _ => x = ip) = 0 := by
    have := h.live_le hlimit hlong
    omega
  refine ⟨hinv.1, (hcounted.count ip).trans hnone, fun t ht hip => ?_⟩
  exact List.countP_eq_zero.mp hnone t ht (decide_eq_true hip)

/-- The connection over HTTP is there when a handshake over HTTPS fails, and no longer
70 seconds later. -/
theorem blocked_address_gone_two :
    ∃ m s, exec step (start 5 { maxTlsFailures := 1 } 3) [.accept .https (.v4 1), .accept .http (.v4 1),
        .handshakeFailed ⟨⟨.v4 1, .https, .handshake⟩, 0, 10000⟩] = some m ∧
      m.server.security.Blocked (.v4 1) ∧ m.server.tasks.length = 2 ∧
      exec step m [.finish ⟨⟨.v4 1, .https, .failed⟩, 0, 0⟩, .accept .http (.v4 1), .tick 60000,
        .finish ⟨⟨.v4 1, .http, .serving⟩, 0, 60000⟩, .tick 70001] = some s ∧
      s.server.security.connectionCount (.v4 1) = 0 := by
  obtain ⟨m, hm⟩ : ∃ m, exec step (start 5 { maxTlsFailures := 1 } 3) [.accept .https (.v4 1), .accept .http (.v4 1),
    .handshakeFailed ⟨⟨.v4 1, .https, .handshake⟩, 0, 10000⟩] = some m := ⟨_, rfl⟩
  obtain ⟨s, hs⟩ : ∃ s, exec step m [.finish ⟨⟨.v4 1, .https, .failed⟩, 0, 0⟩, .accept .http (.v4 1), .tick 60000,
    .finish ⟨⟨.v4 1, .http, .serving⟩, 0, 60000⟩, .tick 70001] = some s := by cases hm; exact ⟨_, rfl⟩
  have hb : m.server.security.Blocked (.v4 1) := by cases hm; rfl
  have hlong : m.clock + lifetime .https < s.clock := by cases hm; cases hs; decide
  exact ⟨m, s, hm, hb, by cases hm; rfl, hs, (blocked_address_gone hm hb hs hlong).2.1⟩

end Timed

end Curf
