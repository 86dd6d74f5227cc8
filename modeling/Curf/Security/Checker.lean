import Curf.Basic
import Curf.Config

/-!
# Connection counts and TLS abuse

The part of `SecurityChecker` that the accept loops use: the connections of each
address, its failed TLS handshakes and the addresses blocked for good. Connection
counts stay below the configured limit, so they need no bound of their own; the
failure counter is 32 bits wide and wraps.
-/

namespace Curf

structure SecurityChecker where
  maxConnectionsPerIp : Nat
  connections : DashMap IpAddr Nat
  tlsFailures : DashMap IpAddr UInt32
  blockedIps : DashMap IpAddr Unit
  flags : SecurityFlags

namespace SecurityChecker

def new (maxConnectionsPerIp : Nat) (flags : SecurityFlags) : SecurityChecker :=
  ⟨maxConnectionsPerIp, .empty, .empty, .empty, flags⟩

/-- Count a new connection of `ip`, unless `ip` is blocked or at its limit. -/
def checkAndAcquireConnection (sc : SecurityChecker) (ip : IpAddr) :
    Except Unit Unit × SecurityChecker :=
  if (sc.blockedIps ip).isSome then (.error (), sc)
  else
    -- a missing entry is created at zero, also when the connection is then refused
    let count := (sc.connections ip).getD 0
    if sc.maxConnectionsPerIp ≤ count then
      (.error (), { sc with connections := sc.connections.insert ip count })
    else (.ok (), { sc with connections := sc.connections.insert ip (count + 1) })

/-- A connection of `ip` has ended. -/
def releaseConnection (sc : SecurityChecker) (ip : IpAddr) : SecurityChecker :=
  match sc.connections ip with
  | none => sc
  | some count =>
    if 0 < count then { sc with connections := sc.connections.insert ip (count - 1) } else sc

def recordTlsFailure (sc : SecurityChecker) (ip : IpAddr) : SecurityChecker :=
  if sc.flags.blockTlsAbusers = false then sc
  else
    let count := (sc.tlsFailures ip).getD 0 + 1
    { sc with
      tlsFailures := sc.tlsFailures.insert ip count
      blockedIps :=
        if sc.flags.maxTlsFailures ≤ count then sc.blockedIps.insert ip () else sc.blockedIps }

/-- The connections counted for `ip`. -/
def connectionCount (sc : SecurityChecker) (ip : IpAddr) : Nat := (sc.connections ip).getD 0

/-- The TLS failures counted for `ip`. -/
def tlsFailureCount (sc : SecurityChecker) (ip : IpAddr) : UInt32 := (sc.tlsFailures ip).getD 0

def Blocked (sc : SecurityChecker) (ip : IpAddr) : Prop := (sc.blockedIps ip).isSome = true

/-- A new connection of `ip` would be refused. -/
def Refuses (sc : SecurityChecker) (ip : IpAddr) : Prop :=
  (sc.checkAndAcquireConnection ip).1 = .error ()

variable {sc sc' : SecurityChecker} {ip : IpAddr}

theorem refuses_iff : sc.Refuses ip ↔ sc.maxConnectionsPerIp ≤ sc.connectionCount ip ∨ sc.Blocked ip := by
  unfold Refuses checkAndAcquireConnection Blocked connectionCount
  split
  · rename_i h; simp [h]
  · rename_i h
    dsimp only
    split
    · rename_i hc; simp [hc]
    · rename_i hc; simp [hc, h]

/-- `sc'` has the tables of `sc`, except for the connection count of `ip`. -/
structure SameButCount (ip : IpAddr) (sc sc' : SecurityChecker) : Prop where
  max : sc'.maxConnectionsPerIp = sc.maxConnectionsPerIp
  flags : sc'.flags = sc.flags
  tls : sc'.tlsFailures = sc.tlsFailures
  blocked : sc'.blockedIps = sc.blockedIps
  other : ∀ x, x ≠ ip → sc'.connectionCount x = sc.connectionCount x

theorem SameButCount.refl (ip : IpAddr) (sc : SecurityChecker) : SameButCount ip sc sc :=
  ⟨rfl, rfl, rfl, rfl, fun _ _ => rfl⟩

theorem sameButCount_insert (ip : IpAddr) (n : Nat) :
    SameButCount ip sc { sc with connections := sc.connections.insert ip n } :=
  ⟨rfl, rfl, rfl, rfl, fun x hx => by simp [connectionCount, DashMap.insert_other _ _ hx]⟩

theorem connectionCount_insert (n : Nat) :
    ({ sc with connections := sc.connections.insert ip n } : SecurityChecker).connectionCount ip = n := by
  simp [connectionCount]

theorem acquire_same (sc : SecurityChecker) (ip : IpAddr) :
    SameButCount ip sc (sc.checkAndAcquireConnection ip).2 := by
  unfold checkAndAcquireConnection
  split
  · exact .refl ..
  · dsimp only; split
    · exact sameButCount_insert ip _
    · exact sameButCount_insert ip _

/-- A refusal counts nothing. -/
theorem acquire_error (h : sc.Refuses ip) :
    (sc.checkAndAcquireConnection ip).2.connectionCount ip = sc.connectionCount ip := by
  unfold Refuses checkAndAcquireConnection at h
  unfold checkAndAcquireConnection
  split
  · rfl
  · rename_i hb
    rw [if_neg hb] at h
    dsimp only at h ⊢
    split at h
    · rename_i hm; rw [if_pos hm]; exact connectionCount_insert _
    · cases h

/-- An acceptance counts one connection, below the limit. -/
theorem acquire_ok (h : ¬ sc.Refuses ip) :
    (sc.checkAndAcquireConnection ip).1 = .ok () ∧
      (sc.checkAndAcquireConnection ip).2.connectionCount ip = sc.connectionCount ip + 1 := by
  obtain ⟨hm, hb⟩ := not_or.mp (mt refuses_iff.mpr h)
  unfold Blocked at hb
  unfold connectionCount at hm
  unfold checkAndAcquireConnection
  rw [if_neg hb]
  dsimp only
  rw [if_neg hm]
  exact ⟨rfl, connectionCount_insert _⟩

theorem release_same (sc : SecurityChecker) (ip : IpAddr) :
    SameButCount ip sc (sc.releaseConnection ip) := by
  unfold releaseConnection
  split
  · exact .refl ..
  · split
    · exact sameButCount_insert ip _
    · exact .refl ..

/-- A release takes one connection off the count and stops at zero. -/
theorem release_count (sc : SecurityChecker) (ip : IpAddr) :
    (sc.releaseConnection ip).connectionCount ip = sc.connectionCount ip - 1 := by
  unfold releaseConnection
  split
  · rename_i h; simp [connectionCount, h]
  · rename_i n h
    split
    · rw [connectionCount_insert]; simp [connectionCount, h]
    · simp only [connectionCount, h, Option.getD_some]; omega

/-- `recordTlsFailure` works on the failures and the block of `ip` only. -/
theorem recordTlsFailure_frame (sc : SecurityChecker) (ip : IpAddr) :
    (sc.recordTlsFailure ip).maxConnectionsPerIp = sc.maxConnectionsPerIp ∧
      (sc.recordTlsFailure ip).flags = sc.flags ∧
      (sc.recordTlsFailure ip).connections = sc.connections ∧
      ∀ x, x ≠ ip → (sc.recordTlsFailure ip).tlsFailureCount x = sc.tlsFailureCount x ∧
        (sc.recordTlsFailure ip).blockedIps x = sc.blockedIps x := by
  unfold recordTlsFailure
  split
  · exact ⟨rfl, rfl, rfl, fun _ _ => ⟨rfl, rfl⟩⟩
  · refine ⟨rfl, rfl, rfl, fun x hx => ⟨by simp [tlsFailureCount, DashMap.insert_other _ _ hx], ?_⟩⟩
    dsimp only
    split
    · exact DashMap.insert_other _ _ hx
    · rfl

theorem recordTlsFailure_off (h : sc.flags.blockTlsAbusers = false) : sc.recordTlsFailure ip = sc := by
  simp [recordTlsFailure, h]

/-- With the switch on, the failure is counted and blocks `ip` at the limit. -/
theorem recordTlsFailure_on (ip : IpAddr) (h : sc.flags.blockTlsAbusers = true) :
    (sc.recordTlsFailure ip).tlsFailureCount ip = sc.tlsFailureCount ip + 1 ∧
      ((sc.recordTlsFailure ip).Blocked ip ↔
        sc.Blocked ip ∨ sc.flags.maxTlsFailures ≤ sc.tlsFailureCount ip + 1) := by
  simp only [recordTlsFailure, h, Bool.true_eq_false, if_false]
  refine ⟨by simp [tlsFailureCount], ?_⟩
  simp only [Blocked, tlsFailureCount]
  split
  · rename_i hm; simp [hm]
  · rename_i hm; simp [hm]

end SecurityChecker

end Curf
