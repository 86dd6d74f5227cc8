import Curf.Server.GlobalCap

/-!
# The two listeners, one map operation at a time

`check_and_acquire_connection` looks at the blocked addresses first and locks the count
of the address afterwards; `record_tls_failure` counts first and blocks afterwards; a
task that ends drops its guard first and its permit afterwards. Here each of these is
a step of its own, and the steps of the two accept loops and of the tasks interleave in
any order. The two loops keep a single connection in hand each.

The counts and the caps of the listeners stay exact (`race_admission`). A block is no
barrier, though: a loop that has looked before it gets its connection through, and
`admitted_after_block` says that nothing else does.
-/

namespace Curf

open Lib

namespace SecurityChecker

/-- The second half of `check_and_acquire_connection`, under the lock of the entry. -/
def countConnection (sc : SecurityChecker) (ip : IpAddr) : Except Unit Unit × SecurityChecker :=
  let count := (sc.connections ip).getD 0
  if sc.maxConnectionsPerIp ≤ count then
    (.error (), { sc with connections := sc.connections.insert ip count })
  else (.ok (), { sc with connections := sc.connections.insert ip (count + 1) })

/-- The first half of `record_tls_failure`: count the failure. -/
def countTlsFailure (sc : SecurityChecker) (ip : IpAddr) : UInt32 × SecurityChecker :=
  let count := (sc.tlsFailures ip).getD 0 + 1
  (count, { sc with tlsFailures := sc.tlsFailures.insert ip count })

/-- The second half of `record_tls_failure`: block the address. -/
def blockIp (sc : SecurityChecker) (ip : IpAddr) : SecurityChecker :=
  { sc with blockedIps := sc.blockedIps.insert ip () }

variable {sc : SecurityChecker} {ip : IpAddr}

theorem checkAndAcquireConnection_eq (sc : SecurityChecker) (ip : IpAddr) :
    sc.checkAndAcquireConnection ip =
      if (sc.blockedIps ip).isSome then (.error (), sc) else sc.countConnection ip := rfl

theorem recordTlsFailure_eq (sc : SecurityChecker) (ip : IpAddr) :
    sc.recordTlsFailure ip =
      if sc.flags.blockTlsAbusers = false then sc
      else if sc.flags.maxTlsFailures ≤ (sc.countTlsFailure ip).1 then (sc.countTlsFailure ip).2.blockIp ip
      else (sc.countTlsFailure ip).2 := by
  unfold recordTlsFailure countTlsFailure blockIp
  dsimp only
  split
  · rfl
  · split <;> rfl

theorem countConnection_same (sc : SecurityChecker) (ip : IpAddr) :
    SameButCount ip sc (sc.countConnection ip).2 := by
  unfold countConnection
  dsimp only
  split
  · exact sameButCount_insert ip _
  · exact sameButCount_insert ip _

theorem countConnection_full (h : sc.maxConnectionsPerIp ≤ sc.connectionCount ip) :
    (sc.countConnection ip).1 = .error () ∧ (sc.countConnection ip).2.connectionCount ip = sc.connectionCount ip := by
  unfold countConnection
  unfold connectionCount at h
  rw [if_pos h]
  exact ⟨rfl, connectionCount_insert _⟩

theorem countConnection_room (h : sc.connectionCount ip < sc.maxConnectionsPerIp) :
    (sc.countConnection ip).1 = .ok () ∧
      (sc.countConnection ip).2.connectionCount ip = sc.connectionCount ip + 1 := by
  unfold countConnection
  unfold connectionCount at h
  rw [if_neg (by omega)]
  exact ⟨rfl, connectionCount_insert _⟩

end SecurityChecker

/-- Where an accept loop is with the connection in hand, for which it has a permit. -/
inductive LoopPhase where
  | idle
  | permitted (ip : IpAddr)
  /-- The address has been looked up and was not blocked. -/
  | unblocked (ip : IpAddr)
  /-- The connection is counted and its task not yet spawned. -/
  | counted (ip : IpAddr)
  deriving DecidableEq, Repr

inductive RacePhase where
  | handshake
  | serving
  /-- The handshake has failed and the failure is not yet counted. -/
  | failing
  /-- The failure is counted and the address is to be blocked. -/
  | blocking
  /-- The failure is recorded. -/
  | failed
  /-- The guard is dropped and the permit is not. -/
  | released
  deriving DecidableEq, Repr

structure RaceTask where
  ip : IpAddr
  listener : Listener
  phase : RacePhase
  deriving DecidableEq, Repr

structure Racing where
  security : SecurityChecker
  permits : Listener → Nat
  loops : Listener → LoopPhase
  tasks : List RaceTask

inductive RaceEvent where
  /-- A connection arrives at a loop that waits for one. -/
  | accept (l : Listener) (ip : IpAddr)
  | lookUp (l : Listener) (ip : IpAddr)
  | count (l : Listener) (ip : IpAddr)
  | spawn (l : Listener) (ip : IpAddr)
  | handshakeOk (ip : IpAddr)
  | handshakeFailed (ip : IpAddr)
  | countFailure (ip : IpAddr)
  | block (ip : IpAddr)
  /-- A task ends and drops its guard. -/
  | finish (t : RaceTask)
  | returnPermit (t : RaceTask)
  deriving DecidableEq

namespace Racing

def start (maxConnectionsPerIp : Nat) (flags : SecurityFlags) (maxConns : Nat) : Racing :=
  ⟨.new maxConnectionsPerIp flags, fun _ => maxConns, fun _ => .idle, []⟩

def setLoop (s : Racing) (l : Listener) (ph : LoopPhase) : Listener → LoopPhase :=
  fun x => if x = l then ph else s.loops x

def setPermits (s : Racing) (l : Listener) (n : Nat) : Listener → Nat :=
  fun x => if x = l then n else s.permits x

/-- The loop drops its connection, and the permit with it. -/
def giveUp (s : Racing) (l : Listener) (security : SecurityChecker) : Racing :=
  { s with security, permits := s.setPermits l (s.permits l + 1), loops := s.setLoop l .idle }

/-- The tasks after `t` has gone on to the phase `ph`. -/
def turn (s : Racing) (t : RaceTask) (ph : RacePhase) : List RaceTask := { t with phase := ph } :: s.tasks.erase t

/-- The first phase of a task. -/
def firstPhase : Listener → RacePhase
  | .http => .serving
  | .https => .handshake

def step (s : Racing) : RaceEvent → Option Racing
  | .accept l ip =>
    if s.loops l ≠ .idle then none
    else if s.permits l = 0 then some s
    else some { s with permits := s.setPermits l (s.permits l - 1), loops := s.setLoop l (.permitted ip) }
  | .lookUp l ip =>
    if s.loops l ≠ .permitted ip then none
    else if (s.security.blockedIps ip).isSome then some (s.giveUp l s.security)
    else some { s with loops := s.setLoop l (.unblocked ip) }
  | .count l ip =>
    if s.loops l ≠ .unblocked ip then none
    else
      match s.security.countConnection ip with
      | (.error _, sc) => some (s.giveUp l sc)
      | (.ok _, sc) => some { s with security := sc, loops := s.setLoop l (.counted ip) }
  | .spawn l ip =>
    if s.loops l ≠ .counted ip then none
    else some { s with loops := s.setLoop l .idle, tasks := ⟨ip, l, firstPhase l⟩ :: s.tasks }
  | .handshakeOk ip =>
    if ⟨ip, .https, .handshake⟩ ∈ s.tasks then
      some { s with tasks := s.turn ⟨ip, .https, .handshake⟩ .serving }
    else none
  | .handshakeFailed ip =>
    if ⟨ip, .https, .handshake⟩ ∈ s.tasks then
      some { s with tasks := s.turn ⟨ip, .https, .handshake⟩ .failing }
    else none
  | .countFailure ip =>
    if ⟨ip, .https, .failing⟩ ∈ s.tasks then
      if s.security.flags.blockTlsAbusers = false then some { s with tasks := s.turn ⟨ip, .https, .failing⟩ .failed }
      else
        let counted := s.security.countTlsFailure ip
        let next := if s.security.flags.maxTlsFailures ≤ counted.1 then .blocking else .failed
        some { s with security := counted.2, tasks := s.turn ⟨ip, .https, .failing⟩ next }
    else none
  | .block ip =>
    if ⟨ip, .https, .blocking⟩ ∈ s.tasks then
      some { s with
        security := s.security.blockIp ip
        tasks := s.turn ⟨ip, .https, .blocking⟩ .failed }
    else none
  | .finish t =>
    if t ∈ s.tasks ∧ (t.phase = .serving ∨ t.phase = .failed) then
      some { s with security := s.security.releaseConnection t.ip, tasks := s.turn t .released }
    else none
  | .returnPermit t =>
    if t ∈ s.tasks ∧ t.phase = .released then
      some { s with
        permits := s.setPermits t.listener (s.permits t.listener + 1)
        tasks := s.tasks.erase t }
    else none

/-- What an event can do, one case for each way through the code. -/
inductive Moves (s : Racing) : RaceEvent → Racing → Prop
  | dropped {l : Listener} {ip : IpAddr} (hl : s.loops l = .idle) (hp : s.permits l = 0) : Moves s (.accept l ip) s
  | permitted {l : Listener} {ip : IpAddr} (hl : s.loops l = .idle) (hp : s.permits l ≠ 0) :
      Moves s (.accept l ip)
        { s with permits := s.setPermits l (s.permits l - 1), loops := s.setLoop l (.permitted ip) }
  | refused {l : Listener} {ip : IpAddr} (hl : s.loops l = .permitted ip) (hb : s.security.Blocked ip) :
      Moves s (.lookUp l ip) (s.giveUp l s.security)
  | passed {l : Listener} {ip : IpAddr} (hl : s.loops l = .permitted ip) (hb : ¬ s.security.Blocked ip) :
      Moves s (.lookUp l ip) { s with loops := s.setLoop l (.unblocked ip) }
  | full {l : Listener} {ip : IpAddr} (hl : s.loops l = .unblocked ip)
      (hm : s.security.maxConnectionsPerIp ≤ s.security.connectionCount ip) :
      Moves s (.count l ip) (s.giveUp l (s.security.countConnection ip).2)
  | counted {l : Listener} {ip : IpAddr} (hl : s.loops l = .unblocked ip)
      (hm : s.security.connectionCount ip < s.security.maxConnectionsPerIp) :
      Moves s (.count l ip)
        { s with security := (s.security.countConnection ip).2, loops := s.setLoop l (.counted ip) }
  | spawned {l : Listener} {ip : IpAddr} (hl : s.loops l = .counted ip) :
      Moves s (.spawn l ip) { s with loops := s.setLoop l .idle, tasks := ⟨ip, l, firstPhase l⟩ :: s.tasks }
  | handshakeOk {ip : IpAddr} (ht : ⟨ip, .https, .handshake⟩ ∈ s.tasks) :
      Moves s (.handshakeOk ip) { s with tasks := s.turn ⟨ip, .https, .handshake⟩ .serving }
  | handshakeFailed {ip : IpAddr} (ht : ⟨ip, .https, .handshake⟩ ∈ s.tasks) :
      Moves s (.handshakeFailed ip) { s with tasks := s.turn ⟨ip, .https, .handshake⟩ .failing }
  | ignored {ip : IpAddr} (ht : ⟨ip, .https, .failing⟩ ∈ s.tasks)
      (hf : s.security.flags.blockTlsAbusers = false) :
      Moves s (.countFailure ip) { s with tasks := s.turn ⟨ip, .https, .failing⟩ .failed }
  | failureCounted {ip : IpAddr} (ht : ⟨ip, .https, .failing⟩ ∈ s.tasks)
      (hf : s.security.flags.blockTlsAbusers = true) :
      Moves s (.countFailure ip)
        { s with
          security := (s.security.countTlsFailure ip).2
          tasks := s.turn ⟨ip, .https, .failing⟩
            (if s.security.flags.maxTlsFailures ≤ (s.security.countTlsFailure ip).1 then .blocking else .failed) }
  | blocked {ip : IpAddr} (ht : ⟨ip, .https, .blocking⟩ ∈ s.tasks) :
      Moves s (.block ip)
        { s with security := s.security.blockIp ip, tasks := s.turn ⟨ip, .https, .blocking⟩ .failed }
  | finished {t : RaceTask} (ht : t ∈ s.tasks) (hph : t.phase = .serving ∨ t.phase = .failed) :
      Moves s (.finish t)
        { s with security := s.security.releaseConnection t.ip, tasks := s.turn t .released }
  | returned {t : RaceTask} (ht : t ∈ s.tasks) (hph : t.phase = .released) :
      Moves s (.returnPermit t)
        { s with
          permits := s.setPermits t.listener (s.permits t.listener + 1)
          tasks := s.tasks.erase t }

theorem moves_of_step {s s' : Racing} {e : RaceEvent} (hs : s.step e = some s') : Moves s e s' := by
  cases e with
  | accept l ip =>
    simp only [step] at hs
    split at hs
    · cases hs
    · rename_i hl
      split at hs
      · rename_i hp; cases hs; exact .dropped (not_not.mp hl) hp
      · rename_i hp; cases hs; exact .permitted (not_not.mp hl) hp
  | lookUp l ip =>
    simp only [step] at hs
    split at hs
    · cases hs
    · rename_i hl
      split at hs
      · rename_i hb; cases hs; exact .refused (not_not.mp hl) hb
      · rename_i hb; cases hs; exact .passed (not_not.mp hl) hb
  | count l ip =>
    simp only [step] at hs
    split at hs
    · cases hs
    · rename_i hl
      rcases Nat.lt_or_ge (s.security.connectionCount ip) s.security.maxConnectionsPerIp with hm | hm
      · have hsplit : s.security.countConnection ip = (.ok (), (s.security.countConnection ip).2) :=
          Prod.ext (SecurityChecker.countConnection_room hm).1 rfl
        rw [hsplit] at hs
        cases hs
        exact .counted (not_not.mp hl) hm
      · have hsplit : s.security.countConnection ip = (.error (), (s.security.countConnection ip).2) :=
          Prod.ext (SecurityChecker.countConnection_full hm).1 rfl
        rw [hsplit] at hs
        cases hs
        exact .full (not_not.mp hl) hm
  | spawn l ip =>
    simp only [step] at hs
    split at hs
    · cases hs
    · rename_i hl; cases hs; exact .spawned (not_not.mp hl)
  | handshakeOk ip =>
    simp only [step] at hs
    split at hs
    · rename_i ht; cases hs; exact .handshakeOk ht
    · cases hs
  | handshakeFailed ip =>
    simp only [step] at hs
    split at hs
    · rename_i ht; cases hs; exact .handshakeFailed ht
    · cases hs
  | countFailure ip =>
    simp only [step] at hs
    split at hs
    · rename_i ht
      split at hs
      · rename_i hf; cases hs; exact .ignored ht hf
      · rename_i hf; cases hs; exact .failureCounted ht (by simpa using hf)
    · cases hs
  | block ip =>
    simp only [step] at hs
    split at hs
    · rename_i ht; cases hs; exact .blocked ht
    · cases hs
  | finish t =>
    simp only [step] at hs
    split at hs
    · rename_i ht; cases hs; exact .finished ht.1 ht.2
    · cases hs
  | returnPermit t =>
    simp only [step] at hs
    split at hs
    · rename_i ht; cases hs; exact .returned ht.1 ht.2
    · cases hs

variable {maxPerIp maxConns : Nat} {flags : SecurityFlags} {past : List RaceEvent} {s s' : Racing}
  {e : RaceEvent} {ip : IpAddr} {l : Listener}

/-! ## The connections in hand -/

/-- The accept loops in a phase that satisfies `p`. -/
def loopsIn (p : LoopPhase → Bool) (loops : Listener → LoopPhase) : Nat :=
  [Listener.http, .https].countP fun l => p (loops l)

theorem loopsIn_setLoop (p : LoopPhase → Bool) (s : Racing) (l : Listener) (ph : LoopPhase) :
    loopsIn p (s.setLoop l ph) + (if p (s.loops l) then 1 else 0) =
      loopsIn p s.loops + if p ph then 1 else 0 := by
  cases l <;> simp only [loopsIn, setLoop, List.countP_cons, List.countP_nil] <;> simp <;> omega

/-- A loop goes on between phases that count the same. -/
theorem loopsIn_setLoop_same {p : LoopPhase → Bool} {ph : LoopPhase} (h : p ph = p (s.loops l)) :
    loopsIn p (s.setLoop l ph) = loopsIn p s.loops := by
  have := loopsIn_setLoop p s l ph
  rw [h] at this
  omega

/-! ## Permits -/

/-- The permits taken from the semaphore of a listener. -/
def taken (s : Racing) (l : Listener) : Nat :=
  s.tasks.countP (fun t => t.listener = l) + if s.loops l = .idle then 0 else 1

/-- The permits of each listener are left in its semaphore, in the hand of its loop or
with its tasks. -/
def Conserved (maxConns : Nat) (s : Racing) : Prop := ∀ l, s.permits l + s.taken l = maxConns

theorem conserved_start : Conserved maxConns (start maxPerIp flags maxConns) := fun _ => rfl

/-- Only the permits of one listener are touched, and their sum is kept. -/
theorem Conserved.of_one (h : Conserved maxConns s) (l : Listener)
    (hother : ∀ k, k ≠ l → s'.permits k = s.permits k ∧ s'.taken k = s.taken k)
    (hself : s'.permits l + s'.taken l = s.permits l + s.taken l) : Conserved maxConns s' := by
  intro k
  by_cases hk : k = l
  · subst hk; rw [hself]; exact h k
  · obtain ⟨hp, ht⟩ := hother k hk
    rw [hp, ht]; exact h k

/-- The loop of a listener goes on and keeps its permit. -/
theorem Conserved.loop (h : Conserved maxConns s) {ph : LoopPhase} {sc : SecurityChecker}
    (hl : s.loops l ≠ .idle) (hph : ph ≠ .idle) :
    Conserved maxConns { s with security := sc, loops := s.setLoop l ph } := by
  refine h.of_one l (fun k hk => ⟨rfl, ?_⟩) ?_
  · simp only [taken, setLoop, if_neg hk]
  · simp only [taken, setLoop, if_true, if_neg hl, if_neg hph]

theorem Conserved.giveUp (h : Conserved maxConns s) (sc : SecurityChecker) (hl : s.loops l ≠ .idle) :
    Conserved maxConns (s.giveUp l sc) := by
  refine h.of_one l (fun k hk => ?_) ?_
  · simp only [Racing.giveUp, taken, setLoop, setPermits, if_neg hk, and_self]
  · simp only [Racing.giveUp, taken, setLoop, setPermits, if_true, if_neg hl]
    omega

theorem Conserved.turn (h : Conserved maxConns s) {t : RaceTask} {ph : RacePhase} {sc : SecurityChecker}
    (ht : t ∈ s.tasks) : Conserved maxConns { s with security := sc, tasks := s.turn t ph } := by
  intro k
  have hsame : (s.turn t ph).countP (fun t => t.listener = k) = s.tasks.countP (fun t => t.listener = k) :=
    countP_replace_same ht rfl
  have hk := h k
  simp only [taken] at hk ⊢
  omega

theorem Conserved.step (h : Conserved maxConns s) (hs : s.step e = some s') : Conserved maxConns s' := by
  cases moves_of_step hs with
  | dropped => exact h
  | @permitted l ip hl hp =>
    refine h.of_one l (fun k hk => ?_) ?_
    · simp only [taken, setLoop, setPermits, if_neg hk, and_self]
    · simp only [taken, setLoop, setPermits, if_true, hl, reduceCtorEq, if_false]
      omega
  | refused hl => exact h.giveUp _ (by simp [hl])
  | passed hl => exact h.loop (by simp [hl]) (by simp)
  | full hl => exact h.giveUp _ (by simp [hl])
  | counted hl => exact h.loop (by simp [hl]) (by simp)
  | @spawned l ip hl =>
    refine h.of_one l (fun k hk => ⟨rfl, ?_⟩) ?_
    · simp only [taken, setLoop, if_neg hk, List.countP_cons, decide_eq_true_eq, if_neg (Ne.symm hk), Nat.add_zero]
    · simp only [taken, setLoop, if_true, List.countP_cons, decide_eq_true_eq, hl, reduceCtorEq, if_false]
  | handshakeOk ht => exact h.turn ht
  | handshakeFailed ht => exact h.turn ht
  | ignored ht => exact h.turn ht
  | failureCounted ht => exact h.turn ht
  | blocked ht => exact h.turn ht
  | finished ht => exact h.turn ht
  | @returned t ht hph =>
    have herase (k : Listener) := countP_erase_add (p := fun t : RaceTask => t.listener = k) ht
    refine h.of_one t.listener (fun k hk => ?_) ?_
    · have := herase k
      simp only [decide_eq_true_eq, if_neg (Ne.symm hk), Nat.add_zero] at this
      simp only [taken, setPermits, if_neg hk, this, and_self]
    · have := herase t.listener
      simp only [decide_eq_true_eq, if_true] at this
      simp only [taken, setPermits, if_true]
      omega

/-! ## The counts of an address -/

/-- The task holds a guard of the address. -/
def holdsGuard (ip : IpAddr) (t : RaceTask) : Bool := t.ip = ip && t.phase ≠ .released

/-- The connections of the address that are counted: those of its tasks, and those in
the hand of a loop. -/
def connections (s : Racing) (ip : IpAddr) : Nat :=
  s.tasks.countP (holdsGuard ip) + loopsIn (· = .counted ip) s.loops

/-- The checker counts the connections of each address, up to its limit. -/
structure Counted (maxPerIp : Nat) (s : Racing) : Prop where
  max_eq : s.security.maxConnectionsPerIp = maxPerIp
  count : ∀ ip, s.security.connectionCount ip = s.connections ip
  le_max : ∀ ip, s.connections ip ≤ maxPerIp

theorem counted_start : Counted maxPerIp (start maxPerIp flags maxConns) :=
  ⟨rfl, fun _ => rfl, fun _ => Nat.zero_le _⟩

/-- Only the count of one address is touched. -/
theorem Counted.of_one (h : Counted maxPerIp s) (a : IpAddr)
    (hmax : s'.security.maxConnectionsPerIp = s.security.maxConnectionsPerIp)
    (hother : ∀ x, x ≠ a →
      s'.security.connectionCount x = s.security.connectionCount x ∧ s'.connections x = s.connections x)
    (hcount : s'.security.connectionCount a = s'.connections a) (hle : s'.connections a ≤ maxPerIp) :
    Counted maxPerIp s' where
  max_eq := hmax.trans h.max_eq
  count x := by
    by_cases hx : x = a
    · subst hx; exact hcount
    · rw [(hother x hx).1, (hother x hx).2]; exact h.count x
  le_max x := by
    by_cases hx : x = a
    · subst hx; exact hle
    · rw [(hother x hx).2]; exact h.le_max x

/-- No count is touched. -/
theorem Counted.frame (h : Counted maxPerIp s)
    (hmax : s'.security.maxConnectionsPerIp = s.security.maxConnectionsPerIp)
    (hcount : ∀ x, s'.security.connectionCount x = s.security.connectionCount x)
    (hconn : ∀ x, s'.connections x = s.connections x) : Counted maxPerIp s' where
  max_eq := hmax.trans h.max_eq
  count x := by rw [hcount, hconn]; exact h.count x
  le_max x := by rw [hconn]; exact h.le_max x
/-- The loop of a listener goes on, with no connection counted before or after. -/
theorem connections_setLoop {ph : LoopPhase} {sc : SecurityChecker} {pm : Listener → Nat}
    (hl : ∀ x, s.loops l ≠ .counted x) (hph : ∀ x, ph ≠ .counted x) (x : IpAddr) :
    connections ⟨sc, pm, s.setLoop l ph, s.tasks⟩ x = s.connections x := by
  unfold connections
  rw [loopsIn_setLoop_same (by simp [hl, hph])]

/-- A task goes on and keeps its guard. -/
theorem connections_turn {t : RaceTask} {ph : RacePhase} {sc : SecurityChecker} (ht : t ∈ s.tasks)
    (htph : t.phase ≠ .released) (hph : ph ≠ .released) (x : IpAddr) :
    connections { s with security := sc, tasks := s.turn t ph } x = s.connections x := by
  unfold connections turn
  dsimp only
  rw [countP_replace_same ht (by simp [holdsGuard, htph, hph])]

theorem Counted.step (h : Counted maxPerIp s) (hs : s.step e = some s') : Counted maxPerIp s' := by
  cases moves_of_step hs with
  | dropped => exact h
  | permitted hl => exact h.frame rfl (fun _ => rfl) (connections_setLoop (by simp [hl]) (by simp))
  | refused hl => exact h.frame rfl (fun _ => rfl) (connections_setLoop (by simp [hl]) (by simp))
  | passed hl => exact h.frame rfl (fun _ => rfl) (connections_setLoop (by simp [hl]) (by simp))
  | @full l ip hl hm =>
    have hsame := s.security.countConnection_same ip
    refine h.frame hsame.max (fun x => ?_) (connections_setLoop (by simp [hl]) (by simp))
    by_cases hx : x = ip
    · subst hx; exact (SecurityChecker.countConnection_full hm).2
    · exact hsame.other x hx
  | @counted l ip hl hm =>
    have hsame := s.security.countConnection_same ip
    have hloop (x : IpAddr) := loopsIn_setLoop (· = .counted x) s l (.counted ip)
    simp only [hl, reduceCtorEq, decide_false, Bool.false_eq_true, if_false, Nat.add_zero, decide_eq_true_eq,
      LoopPhase.counted.injEq] at hloop
    have hcount := h.count ip
    have hmax := h.max_eq
    have hroom := (SecurityChecker.countConnection_room hm).2
    have hself := hloop ip
    rw [if_pos rfl] at hself
    unfold connections at hcount
    refine h.of_one ip hsame.max (fun x hx => ⟨hsame.other x hx, ?_⟩) ?_ ?_
    · have := hloop x
      rw [if_neg (Ne.symm hx), Nat.add_zero] at this
      simp only [connections, this]
    · simp only [connections]
      omega
    · simp only [connections]
      omega
  | @spawned l ip hl =>
    refine h.frame rfl (fun _ => rfl) fun x => ?_
    have hloop := loopsIn_setLoop (· = .counted x) s l .idle
    have hphase : firstPhase l ≠ .released := by cases l <;> simp [firstPhase]
    simp only [hl, reduceCtorEq, decide_false, Bool.false_eq_true, if_false, Nat.add_zero, decide_eq_true_eq,
      LoopPhase.counted.injEq] at hloop
    simp only [connections, List.countP_cons, holdsGuard, hphase, ne_eq, not_false_eq_true, decide_true,
      Bool.and_true, decide_eq_true_eq]
    omega
  | handshakeOk ht => exact h.frame rfl (fun _ => rfl) (connections_turn ht (by simp) (by simp))
  | handshakeFailed ht => exact h.frame rfl (fun _ => rfl) (connections_turn ht (by simp) (by simp))
  | ignored ht => exact h.frame rfl (fun _ => rfl) (connections_turn ht (by simp) (by simp))
  | failureCounted ht => exact h.frame rfl (fun _ => rfl) (connections_turn ht (by simp) (by split <;> simp))
  | blocked ht => exact h.frame rfl (fun _ => rfl) (connections_turn ht (by simp) (by simp))
  | @finished t ht hph =>
    have hholds : t.phase ≠ .released := by rcases hph with hph | hph <;> simp [hph]
    have hsame := s.security.release_same t.ip
    have hturn (x : IpAddr) := countP_replace (p := holdsGuard x) ht { t with phase := .released }
    simp only [holdsGuard, hholds, ne_eq, not_false_eq_true, decide_true, Bool.and_true, decide_eq_true_eq,
      not_true, decide_false, Bool.and_false, Bool.false_eq_true, if_false, Nat.add_zero] at hturn
    have hcount := h.count t.ip
    have hle := h.le_max t.ip
    have hself := hturn t.ip
    rw [if_pos rfl] at hself
    unfold connections at hcount hle
    refine h.of_one t.ip hsame.max (fun x hx => ⟨hsame.other x hx, ?_⟩) ?_ ?_
    · have := hturn x
      rw [if_neg (Ne.symm hx), Nat.add_zero] at this
      simp only [connections, turn, this]
    · rw [SecurityChecker.release_count]
      simp only [connections, turn]
      omega
    · simp only [connections, turn]
      omega
  | @returned t ht hph =>
    refine h.frame rfl (fun _ => rfl) fun x => ?_
    have herase := countP_erase_add (p := holdsGuard x) ht
    simp only [holdsGuard, hph, ne_eq, not_true, decide_false, Bool.and_false, Bool.false_eq_true, if_false,
      Nat.add_zero] at herase
    simp only [connections, herase]

/-! ## Failures and blocks -/

/-- A task has counted the failure that blocks the address, and is about to block it. -/
def AboutToBlock (s : Racing) (ip : IpAddr) : Prop := ⟨ip, .https, .blocking⟩ ∈ s.tasks

/-- The failures of the address counted so far. -/
def failures (es : List RaceEvent) (ip : IpAddr) : Nat := es.count (.countFailure ip)

/-- The table of failures matches the past, and no block is missing or more than due. -/
structure FailuresCounted (flags : SecurityFlags) (past : List RaceEvent) (s : Racing) : Prop where
  flags_eq : s.security.flags = flags
  tls : flags.blockTlsAbusers = true → ∀ ip, s.security.tlsFailureCount ip = UInt32.ofNat (failures past ip)
  blocked : ∀ ip, s.security.Blocked ip ∨ s.AboutToBlock ip ↔
    flags.blockTlsAbusers = true ∧ Server.tlsLimit flags ≤ failures past ip

theorem failuresCounted_start : FailuresCounted flags [] (start maxPerIp flags maxConns) where
  flags_eq := rfl
  tls _ _ := rfl
  blocked ip := by
    have : ¬ Server.tlsLimit flags ≤ failures [] ip := by simp [Server.tlsLimit, failures]
    simp [start, SecurityChecker.new, SecurityChecker.Blocked, AboutToBlock, this]

theorem failures_snoc (e : RaceEvent) (ip : IpAddr) :
    failures (past ++ [e]) ip = failures past ip + if e = .countFailure ip then 1 else 0 := by
  simp [failures, List.count_append, List.count_singleton]

/-- A task that goes on is in the pool in its new phase, and all others stay. -/
theorem mem_turn {t x : RaceTask} {ph : RacePhase} (hx : x ≠ t) :
    x ∈ s.turn t ph ↔ x = { t with phase := ph } ∨ x ∈ s.tasks := by
  rw [turn, List.mem_cons, List.mem_erase_of_ne hx]

/-- The tasks that are about to block stay those they are. -/
theorem aboutToBlock_turn {t : RaceTask} {ph : RacePhase} {sc : SecurityChecker} (ht : t.phase ≠ .blocking)
    (hph : ph ≠ .blocking) (ip : IpAddr) :
    AboutToBlock { s with security := sc, tasks := s.turn t ph } ip ↔ s.AboutToBlock ip := by
  have hne : (⟨ip, .https, .blocking⟩ : RaceTask) ≠ t := by rintro rfl; exact ht rfl
  show _ ∈ s.turn t ph ↔ _
  rw [mem_turn hne]
  refine or_iff_right fun he => hph ?_
  rw [RaceTask.mk.injEq] at he
  exact he.2.2.symm

/-- An event that counts no failure and blocks nothing. -/
theorem FailuresCounted.frame (h : FailuresCounted flags past s) (he : ∀ ip, e ≠ .countFailure ip)
    (hflags : s'.security.flags = s.security.flags) (htls : s'.security.tlsFailures = s.security.tlsFailures)
    (hblocked : s'.security.blockedIps = s.security.blockedIps)
    (hpending : ∀ ip, s'.AboutToBlock ip ↔ s.AboutToBlock ip) : FailuresCounted flags (past ++ [e]) s' where
  flags_eq := hflags.trans h.flags_eq
  tls hf ip := by
    rw [failures_snoc, if_neg (he ip), Nat.add_zero, ← h.tls hf ip]
    simp only [SecurityChecker.tlsFailureCount, htls]
  blocked ip := by
    rw [failures_snoc, if_neg (he ip), Nat.add_zero, ← h.blocked ip, hpending]
    simp only [SecurityChecker.Blocked, hblocked]

/-- The failure of a task is counted. -/
theorem FailuresCounted.failure (h : FailuresCounted flags past s) {a : IpAddr}
    (hf : s.security.flags.blockTlsAbusers = true) :
    FailuresCounted flags (past ++ [.countFailure a])
      { s with
        security := (s.security.countTlsFailure a).2
        tasks := s.turn ⟨a, .https, .failing⟩
          (if s.security.flags.maxTlsFailures ≤ (s.security.countTlsFailure a).1 then .blocking else .failed) } where
  flags_eq := h.flags_eq
  tls hf ip := by
    rw [failures_snoc]
    by_cases hip : ip = a
    · subst hip
      rw [if_pos rfl, UInt32.ofNat_add, ← h.tls hf]
      simp [SecurityChecker.countTlsFailure, SecurityChecker.tlsFailureCount]
    · have hother : ¬ RaceEvent.countFailure a = .countFailure ip := by simp [Ne.symm hip]
      rw [if_neg hother, Nat.add_zero, ← h.tls hf]
      simp [SecurityChecker.countTlsFailure, SecurityChecker.tlsFailureCount, DashMap.insert_other _ _ hip]
  blocked ip := by
    have hflags := h.flags_eq
    have hne : (⟨ip, .https, .blocking⟩ : RaceTask) ≠ ⟨a, .https, .failing⟩ := by simp
    show s.security.Blocked ip ∨ _ ∈ s.turn _ _ ↔ _
    rw [mem_turn hne, failures_snoc]
    by_cases hip : ip = a
    · subst hip
      have hcount : (s.security.countTlsFailure ip).1 = UInt32.ofNat (failures past ip) + 1 := by
        rw [← h.tls (hflags ▸ hf)]
        rfl
      have hreach : (⟨ip, .https, .blocking⟩ : RaceTask) = ⟨ip, .https,
          if s.security.flags.maxTlsFailures ≤ (s.security.countTlsFailure ip).1 then .blocking else .failed⟩ ↔
          flags.maxTlsFailures ≤ UInt32.ofNat (failures past ip) + 1 := by
        rw [hcount, hflags]
        split <;> simp_all
      have hlimit := Server.limit_step flags.maxTlsFailures (failures past ip)
      have hold := h.blocked ip
      have hon : flags.blockTlsAbusers = true := hflags ▸ hf
      rw [hon] at hold ⊢
      unfold AboutToBlock at hold
      rw [hreach, if_pos rfl, Server.tlsLimit, ← hlimit, or_left_comm, hold, Server.tlsLimit]
      simp only [true_and]
      exact or_comm
    · have hother : ¬ RaceEvent.countFailure a = .countFailure ip := by simp [Ne.symm hip]
      rw [if_neg hother, Nat.add_zero, ← h.blocked ip]
      exact or_congr_right (or_iff_right (by simp [hip]))

theorem FailuresCounted.block (h : FailuresCounted flags past s) {a : IpAddr}
    (ht : ⟨a, .https, .blocking⟩ ∈ s.tasks) :
    FailuresCounted flags (past ++ [.block a])
      { s with security := s.security.blockIp a, tasks := s.turn ⟨a, .https, .blocking⟩ .failed } where
  flags_eq := h.flags_eq
  tls hf ip := by
    rw [failures_snoc, if_neg (by simp), Nat.add_zero]
    exact h.tls hf ip
  blocked ip := by
    rw [failures_snoc, if_neg (by simp), Nat.add_zero, ← h.blocked ip]
    by_cases hip : ip = a
    · subst hip
      exact iff_of_true (.inl (by simp [SecurityChecker.Blocked, SecurityChecker.blockIp])) (.inr ht)
    · refine or_congr ?_ ?_
      · simp only [SecurityChecker.Blocked, SecurityChecker.blockIp, DashMap.insert_other _ _ hip]
      · have hne : (⟨ip, .https, .blocking⟩ : RaceTask) ≠ ⟨a, .https, .blocking⟩ := by simp [hip]
        show _ ∈ s.turn _ _ ↔ _
        rw [mem_turn hne]
        exact or_iff_right (by simp)

theorem FailuresCounted.step (h : FailuresCounted flags past s) (hs : s.step e = some s') :
    FailuresCounted flags (past ++ [e]) s' := by
  cases moves_of_step hs with
  | dropped => exact h.frame (by simp) rfl rfl rfl fun _ => Iff.rfl
  | permitted => exact h.frame (by simp) rfl rfl rfl fun _ => Iff.rfl
  | refused => exact h.frame (by simp) rfl rfl rfl fun _ => Iff.rfl
  | passed => exact h.frame (by simp) rfl rfl rfl fun _ => Iff.rfl
  | @full l ip =>
    have hsame := s.security.countConnection_same ip
    exact h.frame (by simp) hsame.flags hsame.tls hsame.blocked fun _ => Iff.rfl
  | @counted l ip =>
    have hsame := s.security.countConnection_same ip
    exact h.frame (by simp) hsame.flags hsame.tls hsame.blocked fun _ => Iff.rfl
  | @spawned l ip =>
    refine h.frame (by simp) rfl rfl rfl fun x => ?_
    have hphase : firstPhase l ≠ .blocking := by cases l <;> simp [firstPhase]
    exact List.mem_cons.trans (or_iff_right (by simp [Ne.symm hphase]))
  | handshakeOk => exact h.frame (by simp) rfl rfl rfl (aboutToBlock_turn (by simp) (by simp))
  | handshakeFailed => exact h.frame (by simp) rfl rfl rfl (aboutToBlock_turn (by simp) (by simp))
  | @ignored a ht hf =>
    have hturn (ip : IpAddr) : AboutToBlock { s with tasks := s.turn ⟨a, .https, .failing⟩ .failed } ip ↔
        s.AboutToBlock ip := aboutToBlock_turn (by simp) (by simp) ip
    refine ⟨h.flags_eq, fun hon => ?_, fun ip => ?_⟩
    · rw [← h.flags_eq, hf] at hon
      cases hon
    · have hoff : flags.blockTlsAbusers = false := h.flags_eq ▸ hf
      have hold := h.blocked ip
      rw [hoff] at hold ⊢
      rw [hturn ip]
      simpa using hold
  | failureCounted ht hf => exact h.failure hf
  | blocked ht => exact h.block ht
  | @finished t ht hph =>
    have hsame := s.security.release_same t.ip
    have hphase : t.phase ≠ .blocking := by rcases hph with hph | hph <;> simp [hph]
    exact h.frame (by simp) hsame.flags hsame.tls hsame.blocked (aboutToBlock_turn hphase (by simp))
  | @returned t ht hph =>
    refine h.frame (by simp) rfl rfl rfl fun ip => List.mem_erase_of_ne ?_
    rintro rfl
    cases hph

/-- **Admission, one map operation at a time.** In every interleaving the checker counts
the connections of an address, within its limit; the permits of each listener are in its
semaphore or with its connections; and an address is blocked, or a task is about to block
it, exactly from the failure on that reaches the limit. -/
theorem race_admission {es : List RaceEvent} (hrun : exec step (start maxPerIp flags maxConns) es = some s)
    (ip : IpAddr) :
    s.security.connectionCount ip = s.connections ip ∧ s.connections ip ≤ maxPerIp ∧
      (∀ l, s.permits l + s.taken l = maxConns) ∧
      (s.security.Blocked ip ∨ s.AboutToBlock ip ↔
        flags.blockTlsAbusers = true ∧ max 1 flags.maxTlsFailures.toNat ≤ es.count (.countFailure ip)) := by
  have hcounted : Counted maxPerIp s := exec_inv (fun _ _ _ h hs => h.step hs) counted_start hrun
  have hconserved : Conserved maxConns s := exec_inv (fun _ _ _ h hs => h.step hs) conserved_start hrun
  have hfailures : FailuresCounted flags es s :=
    exec_inv_past (I := FailuresCounted flags) (fun _ _ _ _ h hs => h.step hs) failuresCounted_start hrun
  exact ⟨hcounted.count ip, hcounted.le_max ip, hconserved, hfailures.blocked ip⟩

/-- Two loops hold one connection each, and a task that has failed is about to block. -/
theorem race_admission_three :
    ∃ s, exec step (start 5 { maxTlsFailures := 1 } 3)
        [.accept .https (.v4 1), .lookUp .https (.v4 1), .count .https (.v4 1), .spawn .https (.v4 1),
          .accept .http (.v4 1), .lookUp .http (.v4 1), .count .http (.v4 1), .handshakeFailed (.v4 1),
          .countFailure (.v4 1), .accept .https (.v4 1)] = some s ∧
      s.security.connectionCount (.v4 1) = 2 ∧ ¬ s.security.Blocked (.v4 1) ∧ s.AboutToBlock (.v4 1) := by
  obtain ⟨s, hs⟩ : ∃ s, exec step (start 5 { maxTlsFailures := 1 } 3)
    [.accept .https (.v4 1), .lookUp .https (.v4 1), .count .https (.v4 1), .spawn .https (.v4 1),
      .accept .http (.v4 1), .lookUp .http (.v4 1), .count .http (.v4 1), .handshakeFailed (.v4 1),
      .countFailure (.v4 1), .accept .https (.v4 1)] = some s := ⟨_, rfl⟩
  obtain ⟨hcount, -, -, hblock⟩ := race_admission hs (.v4 1)
  have hconn : s.connections (.v4 1) = 2 := by cases hs; rfl
  have hnot : ¬ s.security.Blocked (.v4 1) := by cases hs; simp [SecurityChecker.Blocked]; rfl
  exact ⟨s, hs, hcount.trans hconn, hnot, (hblock.mpr ⟨rfl, by decide⟩).resolve_left hnot⟩

/-! ## Connections that get in after a block -/

/-- The loop has a connection of the address that it has found not to be blocked. -/
def pastLookUp (ip : IpAddr) (ph : LoopPhase) : Bool := ph = .unblocked ip || ph = .counted ip

/-- The event starts a task for a connection of the address. -/
def spawns (ip : IpAddr) : RaceEvent → Bool
  | .spawn _ x => x = ip
  | _ => false

/-- No block is lifted. -/
theorem blocked_step (hb : s.security.Blocked ip) (hs : s.step e = some s') : s'.security.Blocked ip := by
  unfold SecurityChecker.Blocked at hb ⊢
  cases moves_of_step hs with
  | dropped | permitted | refused | passed | spawned | handshakeOk | handshakeFailed | ignored | returned => exact hb
  | failureCounted => exact hb
  | @full l a => rw [← (s.security.countConnection_same a).blocked] at hb; exact hb
  | @counted l a => rw [← (s.security.countConnection_same a).blocked] at hb; exact hb
  | @finished t => rw [← (s.security.release_same t.ip).blocked] at hb; exact hb
  | @blocked a =>
    by_cases hip : ip = a
    · subst hip; simp [SecurityChecker.blockIp]
    · simpa [SecurityChecker.blockIp, DashMap.insert_other _ _ hip] using hb

/-- A connection of a blocked address that starts its task was past the look-up. -/
theorem spawns_step (hb : s.security.Blocked ip) (hs : s.step e = some s') :
    (if spawns ip e then 1 else 0) + loopsIn (pastLookUp ip) s'.loops ≤ loopsIn (pastLookUp ip) s.loops := by
  have hloop (l : Listener) (ph : LoopPhase) := loopsIn_setLoop (pastLookUp ip) s l ph
  cases moves_of_step hs with
  | dropped | handshakeOk | handshakeFailed | ignored | failureCounted | blocked | finished | returned =>
    simp [spawns]
  | @permitted l a hl =>
    have := hloop l (.permitted a)
    simp only [pastLookUp, hl, reduceCtorEq, decide_false, Bool.or_self, Bool.false_eq_true, if_false] at this
    simp only [spawns, Bool.false_eq_true, if_false]
    omega
  | @refused l a hl =>
    have := hloop l .idle
    simp only [pastLookUp, hl, reduceCtorEq, decide_false, Bool.or_self, Bool.false_eq_true, if_false] at this
    simp only [spawns, Bool.false_eq_true, if_false, giveUp]
    omega
  | @passed l a hl hfree =>
    -- the address found not to be blocked is another
    have hip : a ≠ ip := by rintro rfl; exact hfree hb
    have := hloop l (.unblocked a)
    simp only [pastLookUp, hl, reduceCtorEq, decide_false, Bool.or_self, Bool.false_eq_true, if_false,
      LoopPhase.unblocked.injEq, hip] at this
    simp only [spawns, Bool.false_eq_true, if_false]
    omega
  | @full l a hl =>
    have := hloop l .idle
    simp only [pastLookUp, reduceCtorEq, decide_false, Bool.or_self, Bool.false_eq_true, if_false] at this
    simp only [spawns, Bool.false_eq_true, if_false, giveUp]
    omega
  | @counted l a hl =>
    have hsame : pastLookUp ip (.counted a) = pastLookUp ip (s.loops l) := by simp [pastLookUp, hl]
    rw [loopsIn_setLoop_same hsame]
    simp [spawns]
  | @spawned l a hl =>
    have hspawns : spawns ip (.spawn l a) = pastLookUp ip (s.loops l) := by simp [spawns, pastLookUp, hl]
    rw [hspawns]
    have := hloop l .idle
    simp only [pastLookUp, reduceCtorEq, decide_false, Bool.or_self, Bool.false_eq_true, if_false] at this ⊢
    omega

/-- **After a block.** An address that is blocked stays so. From then on no connection of
it gets a task but those that a loop has looked up before, one on each listener at most. -/
theorem admitted_after_block {es : List RaceEvent} (hb : s.security.Blocked ip) (hrun : exec step s es = some s') :
    s'.security.Blocked ip ∧
      es.countP (spawns ip) + loopsIn (pastLookUp ip) s'.loops ≤ loopsIn (pastLookUp ip) s.loops ∧
      loopsIn (pastLookUp ip) s.loops ≤ 2 := by
  have hafter : s'.security.Blocked ip ∧
      es.countP (spawns ip) + loopsIn (pastLookUp ip) s'.loops ≤ loopsIn (pastLookUp ip) s.loops := by
    refine exec_inv_past (I := fun past m => m.security.Blocked ip ∧
      past.countP (spawns ip) + loopsIn (pastLookUp ip) m.loops ≤ loopsIn (pastLookUp ip) s.loops)
      (fun past m e m' h hs => ⟨blocked_step h.1 hs, ?_⟩) ⟨hb, by simp⟩ hrun
    have := spawns_step h.1 hs
    rw [List.countP_append, List.countP_singleton]
    omega
  exact ⟨hafter.1, hafter.2, List.countP_le_length⟩

/-- Both loops have looked an address up before it is blocked, and both let it in. -/
theorem admitted_after_block_two :
    ∃ s s', exec step (start 5 { maxTlsFailures := 1 } 3)
        [.accept .https (.v4 1), .lookUp .https (.v4 1), .count .https (.v4 1), .spawn .https (.v4 1),
          .accept .http (.v4 1), .lookUp .http (.v4 1), .accept .https (.v4 1), .lookUp .https (.v4 1),
          .handshakeFailed (.v4 1), .countFailure (.v4 1), .block (.v4 1)] = some s ∧
      exec step s [.count .http (.v4 1), .count .https (.v4 1), .spawn .http (.v4 1), .spawn .https (.v4 1)] = some s' ∧
      s'.security.Blocked (.v4 1) ∧ s'.tasks.length = 3 ∧ 2 + loopsIn (pastLookUp (.v4 1)) s'.loops ≤ 2 := by
  obtain ⟨s, hs⟩ : ∃ s, exec step (start 5 { maxTlsFailures := 1 } 3)
    [.accept .https (.v4 1), .lookUp .https (.v4 1), .count .https (.v4 1), .spawn .https (.v4 1),
      .accept .http (.v4 1), .lookUp .http (.v4 1), .accept .https (.v4 1), .lookUp .https (.v4 1),
      .handshakeFailed (.v4 1), .countFailure (.v4 1), .block (.v4 1)] = some s := ⟨_, rfl⟩
  obtain ⟨s', hs'⟩ : ∃ s', exec step s
    [.count .http (.v4 1), .count .https (.v4 1), .spawn .http (.v4 1), .spawn .https (.v4 1)] = some s' := by
    cases hs; exact ⟨_, rfl⟩
  have hb : s.security.Blocked (.v4 1) := by cases hs; rfl
  obtain ⟨hb', hle, htwo⟩ := admitted_after_block hb hs'
  exact ⟨s, s', hs, hs', hb', by cases hs; cases hs'; rfl, Nat.le_trans hle htwo⟩

end Racing

end Curf
