import Curf.Lib.Exec
import Curf.Lib.Tally
import Curf.Security.Checker

/-!
# The two listeners

`serve_http` and `serve_https` accept connections, each under a semaphore of its
own, and share one `SecurityChecker`. An accepted connection becomes a task that
holds a permit and an `IpConnectionGuard` until it ends; a task of the HTTPS
listener starts with the TLS handshake, whose failure or timeout is recorded
before the guard is dropped.

`connection_admission` reads the counts and the refusals of the checker off the
live tasks and the past TLS failures.
-/

namespace Curf

open Lib

inductive Listener where
  | http
  | https
  deriving DecidableEq, Repr

inductive TaskPhase where
  /-- The TLS handshake is running. -/
  | handshake
  | serving
  /-- The handshake has failed and the task is about to end. -/
  | failed
  deriving DecidableEq, Repr

/-- A live connection task. -/
structure ConnTask where
  ip : IpAddr
  listener : Listener
  phase : TaskPhase
  deriving DecidableEq, Repr

structure Server where
  security : SecurityChecker
  /-- Permits left in the semaphore of a listener. -/
  permits : Listener → Nat
  tasks : List ConnTask

inductive ServerEvent where
  | accept (l : Listener) (ip : IpAddr)
  | handshakeOk (ip : IpAddr)
  | handshakeFailed (ip : IpAddr)
  | finish (t : ConnTask)
  deriving DecidableEq

namespace ServerEvent

def ip : ServerEvent → IpAddr
  | .accept _ ip | .handshakeOk ip | .handshakeFailed ip => ip
  | .finish t => t.ip

end ServerEvent

/-- The phase a connection task starts in. -/
def Listener.firstPhase : Listener → TaskPhase
  | .http => .serving
  | .https => .handshake

namespace Server

def start (maxConnectionsPerIp : Nat) (flags : SecurityFlags) (maxConns : Nat) : Server :=
  ⟨.new maxConnectionsPerIp flags, fun _ => maxConns, []⟩

def setPermits (s : Server) (l : Listener) (n : Nat) : Listener → Nat :=
  fun x => if x = l then n else s.permits x

def step (s : Server) : ServerEvent → Option Server
  | .accept l ip =>
    -- global cap: without a permit the connection is dropped
    if s.permits l = 0 then some s
    else
      match s.security.checkAndAcquireConnection ip with
      | (.error _, sc) => some { s with security := sc }
      | (.ok _, sc) => some {
          security := sc
          permits := s.setPermits l (s.permits l - 1)
          tasks := ⟨ip, l, l.firstPhase⟩ :: s.tasks }
  | .handshakeOk ip =>
    if ⟨ip, .https, .handshake⟩ ∈ s.tasks then
      some { s with tasks := ⟨ip, .https, .serving⟩ :: s.tasks.erase ⟨ip, .https, .handshake⟩ }
    else none
  | .handshakeFailed ip =>
    if ⟨ip, .https, .handshake⟩ ∈ s.tasks then
      some { s with
        security := s.security.recordTlsFailure ip
        tasks := ⟨ip, .https, .failed⟩ :: s.tasks.erase ⟨ip, .https, .handshake⟩ }
    else none
  | .finish t =>
    -- the guard and the permit are dropped with the task
    if t ∈ s.tasks ∧ t.phase ≠ .handshake then
      some {
        security := s.security.releaseConnection t.ip
        permits := s.setPermits t.listener (s.permits t.listener + 1)
        tasks := s.tasks.erase t }
    else none

/-- What an event can do, one case for each way through the code. -/
inductive Moves (s : Server) : ServerEvent → Server → Prop
  | dropped {l : Listener} {ip : IpAddr} (hp : s.permits l = 0) : Moves s (.accept l ip) s
  | refused {l : Listener} {ip : IpAddr} (hp : s.permits l ≠ 0) (hr : s.security.Refuses ip) :
      Moves s (.accept l ip) { s with security := (s.security.checkAndAcquireConnection ip).2 }
  | accepted {l : Listener} {ip : IpAddr} (hp : s.permits l ≠ 0) (hr : ¬ s.security.Refuses ip) :
      Moves s (.accept l ip)
        ⟨(s.security.checkAndAcquireConnection ip).2, s.setPermits l (s.permits l - 1),
          ⟨ip, l, l.firstPhase⟩ :: s.tasks⟩
  | handshakeOk {ip : IpAddr} (ht : ⟨ip, .https, .handshake⟩ ∈ s.tasks) :
      Moves s (.handshakeOk ip)
        { s with tasks := ⟨ip, .https, .serving⟩ :: s.tasks.erase ⟨ip, .https, .handshake⟩ }
  | handshakeFailed {ip : IpAddr} (ht : ⟨ip, .https, .handshake⟩ ∈ s.tasks) :
      Moves s (.handshakeFailed ip)
        { s with
          security := s.security.recordTlsFailure ip
          tasks := ⟨ip, .https, .failed⟩ :: s.tasks.erase ⟨ip, .https, .handshake⟩ }
  | finished {t : ConnTask} (ht : t ∈ s.tasks) (hph : t.phase ≠ .handshake) :
      Moves s (.finish t)
        ⟨s.security.releaseConnection t.ip, s.setPermits t.listener (s.permits t.listener + 1), s.tasks.erase t⟩

theorem moves_of_step {s s' : Server} {e : ServerEvent} (hs : s.step e = some s') : Moves s e s' := by
  cases e with
  | accept l ip =>
    simp only [step] at hs
    split at hs
    · rename_i hp; cases hs; exact .dropped hp
    · rename_i hp
      by_cases hr : s.security.Refuses ip
      · have hsplit : s.security.checkAndAcquireConnection ip =
          (.error (), (s.security.checkAndAcquireConnection ip).2) := Prod.ext hr rfl
        rw [hsplit] at hs
        cases hs
        exact .refused hp hr
      · have hsplit : s.security.checkAndAcquireConnection ip =
          (.ok (), (s.security.checkAndAcquireConnection ip).2) :=
            Prod.ext (SecurityChecker.acquire_ok hr).1 rfl
        rw [hsplit] at hs
        cases hs
        exact .accepted hp hr
  | handshakeOk ip =>
    simp only [step] at hs
    split at hs
    · rename_i ht; cases hs; exact .handshakeOk ht
    · cases hs
  | handshakeFailed ip =>
    simp only [step] at hs
    split at hs
    · rename_i ht; cases hs; exact .handshakeFailed ht
    · cases hs
  | finish t =>
    simp only [step] at hs
    split at hs
    · rename_i ht; cases hs; exact .finished ht.1 ht.2
    · cases hs

/-- The live connection tasks of `ip`. -/
def live (s : Server) (ip : IpAddr) : Nat := s.tasks.countP fun t => decide (t.ip = ip)

/-- The TLS failures of `ip` among the events. -/
def tlsFailures (es : List ServerEvent) (ip : IpAddr) : Nat := es.count (.handshakeFailed ip)

/-- The TLS failures that block an address. -/
def tlsLimit (flags : SecurityFlags) : Nat := max 1 flags.maxTlsFailures.toNat

variable {maxPerIp maxConns : Nat} {flags : SecurityFlags} {past : List ServerEvent} {s s' : Server}

/-! ## The counts along a run -/

/-- The tables of the checker match the live tasks and the past events. -/
structure Counted (maxPerIp : Nat) (flags : SecurityFlags) (past : List ServerEvent) (s : Server) :
    Prop where
  max_eq : s.security.maxConnectionsPerIp = maxPerIp
  flags_eq : s.security.flags = flags
  count : ∀ ip, s.security.connectionCount ip = s.live ip
  le_max : ∀ ip, s.live ip ≤ maxPerIp
  tls : flags.blockTlsAbusers = true →
    ∀ ip, s.security.tlsFailureCount ip = UInt32.ofNat (tlsFailures past ip)
  blocked : ∀ ip, s.security.Blocked ip ↔
    flags.blockTlsAbusers = true ∧ tlsLimit flags ≤ tlsFailures past ip

theorem counted_start : Counted maxPerIp flags [] (start maxPerIp flags maxConns) where
  max_eq := rfl
  flags_eq := rfl
  count _ := rfl
  le_max _ := Nat.zero_le _
  tls _ _ := rfl
  blocked ip := by
    have : ¬ tlsLimit flags ≤ tlsFailures [] ip := by simp [tlsLimit, tlsFailures]
    simp [start, SecurityChecker.new, SecurityChecker.Blocked, this]

theorem tlsFailures_snoc (e : ServerEvent) (ip : IpAddr) :
    tlsFailures (past ++ [e]) ip = tlsFailures past ip + if e = .handshakeFailed ip then 1 else 0 := by
  simp [tlsFailures, List.count_append, List.count_singleton]

/-- An event that is no TLS failure and changes the checker in one count at most. -/
theorem Counted.sameButCount (h : Counted maxPerIp flags past s) {e : ServerEvent}
    (he : ∀ ip, e ≠ .handshakeFailed ip) {a : IpAddr}
    (hs : SecurityChecker.SameButCount a s.security s'.security)
    (hcount : s'.security.connectionCount a = s'.live a) (hle : s'.live a ≤ maxPerIp)
    (hother : ∀ ip, ip ≠ a → s'.live ip = s.live ip) : Counted maxPerIp flags (past ++ [e]) s' where
  max_eq := hs.max.trans h.max_eq
  flags_eq := hs.flags.trans h.flags_eq
  count ip := by
    by_cases hip : ip = a
    · subst hip; exact hcount
    · rw [hs.other ip hip, hother ip hip]; exact h.count ip
  le_max ip := by
    by_cases hip : ip = a
    · subst hip; exact hle
    · rw [hother ip hip]; exact h.le_max ip
  tls hf ip := by
    rw [tlsFailures_snoc, if_neg (he ip), Nat.add_zero, ← h.tls hf ip]
    simp only [SecurityChecker.tlsFailureCount, hs.tls]
  blocked ip := by
    rw [tlsFailures_snoc, if_neg (he ip), Nat.add_zero, ← h.blocked ip]
    simp only [SecurityChecker.Blocked, hs.blocked]

theorem live_cons (t : ConnTask) (ts : List ConnTask) (ip : IpAddr) (sc : SecurityChecker)
    (pm : Listener → Nat) :
    live ⟨sc, pm, t :: ts⟩ ip = live ⟨sc, pm, ts⟩ ip + if t.ip = ip then 1 else 0 := by
  simp [live, List.countP_cons]

theorem Counted.refused (h : Counted maxPerIp flags past s) {l : Listener} {ip : IpAddr}
    (hr : s.security.Refuses ip) :
    Counted maxPerIp flags (past ++ [.accept l ip])
      { s with security := (s.security.checkAndAcquireConnection ip).2 } :=
  h.sameButCount (fun _ => nofun) (s.security.acquire_same ip)
    ((SecurityChecker.acquire_error hr).trans (h.count ip)) (h.le_max ip) fun _ _ => rfl

theorem Counted.accepted (h : Counted maxPerIp flags past s) {l : Listener} {ip : IpAddr}
    (hr : ¬ s.security.Refuses ip) :
    Counted maxPerIp flags (past ++ [.accept l ip])
      ⟨(s.security.checkAndAcquireConnection ip).2, s.setPermits l (s.permits l - 1),
        ⟨ip, l, l.firstPhase⟩ :: s.tasks⟩ := by
  have hlt : s.live ip < maxPerIp := by
    have := mt SecurityChecker.refuses_iff.mpr hr
    rw [not_or, h.count ip, h.max_eq] at this
    omega
  have hl : ∀ x, live ⟨(s.security.checkAndAcquireConnection ip).2, s.setPermits l (s.permits l - 1),
      ⟨ip, l, l.firstPhase⟩ :: s.tasks⟩ x = s.live x + if ip = x then 1 else 0 := fun x => live_cons ..
  refine h.sameButCount (fun _ => nofun) (s.security.acquire_same ip) ?_ ?_ fun x hx => ?_
  · rw [hl, if_pos rfl, (SecurityChecker.acquire_ok hr).2, h.count]
  · rw [hl, if_pos rfl]; exact hlt
  · rw [hl, if_neg (Ne.symm hx), Nat.add_zero]

theorem Counted.finished (h : Counted maxPerIp flags past s) {t : ConnTask} (ht : t ∈ s.tasks) :
    Counted maxPerIp flags (past ++ [.finish t])
      ⟨s.security.releaseConnection t.ip, s.setPermits t.listener (s.permits t.listener + 1),
        s.tasks.erase t⟩ := by
  have hl : ∀ x, live ⟨s.security.releaseConnection t.ip,
      s.setPermits t.listener (s.permits t.listener + 1), s.tasks.erase t⟩ x +
        (if t.ip = x then 1 else 0) = s.live x := fun x => by
    have := countP_erase_add (p := fun u : ConnTask => decide (u.ip = x)) ht
    simpa only [live, decide_eq_true_eq] using this
  have hself := hl t.ip
  rw [if_pos rfl] at hself
  refine h.sameButCount (fun _ => nofun) (s.security.release_same t.ip) ?_ ?_ fun x hx => ?_
  · rw [SecurityChecker.release_count, h.count]; omega
  · have := h.le_max t.ip; omega
  · have := hl x
    rwa [if_neg (Ne.symm hx), Nat.add_zero] at this

/-- An event that leaves the checker alone and the tasks of each address as many. -/
theorem Counted.frame (h : Counted maxPerIp flags past s) {e : ServerEvent}
    (he : ∀ ip, e ≠ .handshakeFailed ip) (hsec : s'.security = s.security)
    (hlive : ∀ ip, s'.live ip = s.live ip) : Counted maxPerIp flags (past ++ [e]) s' := by
  have hsame : SecurityChecker.SameButCount e.ip s.security s'.security := by
    rw [hsec]; exact .refl ..
  refine h.sameButCount he hsame ?_ ?_ fun ip _ => hlive ip
  · rw [hsec, hlive, h.count]
  · rw [hlive]; exact h.le_max _

/-- A counter below the limit has not wrapped, so that adding one to it reaches the
limit exactly when the number of failures does. -/
theorem limit_step (m : UInt32) (k : Nat) :
    max 1 m.toNat ≤ k ∨ m ≤ UInt32.ofNat k + 1 ↔ max 1 m.toNat ≤ k + 1 := by
  have hm := m.toNat_lt
  rw [UInt32.le_iff_toNat_le, UInt32.toNat_add, UInt32.toNat_ofNat']
  simp only [UInt32.reduceToNat]
  omega

theorem Counted.handshakeFailed (h : Counted maxPerIp flags past s) {a : IpAddr}
    (hsec : s'.security = s.security.recordTlsFailure a) (hlive : ∀ ip, s'.live ip = s.live ip) :
    Counted maxPerIp flags (past ++ [.handshakeFailed a]) s' := by
  obtain ⟨hmax, hflags, hconn, hother⟩ := s.security.recordTlsFailure_frame a
  rw [← hsec] at hmax hflags hconn hother
  refine ⟨hmax.trans h.max_eq, hflags.trans h.flags_eq, fun ip => ?_, fun ip => ?_, fun hf ip => ?_,
    fun ip => ?_⟩
  · rw [hlive, ← h.count ip]; simp only [SecurityChecker.connectionCount, hconn]
  · rw [hlive]; exact h.le_max ip
  · rw [tlsFailures_snoc]
    by_cases hip : ip = a
    · subst hip
      obtain ⟨hcnt, -⟩ := SecurityChecker.recordTlsFailure_on ip (h.flags_eq ▸ hf)
      rw [hsec, hcnt, h.tls hf, if_pos rfl, UInt32.ofNat_add]; rfl
    · rw [(hother ip hip).1, h.tls hf, if_neg (by simp [Ne.symm hip]), Nat.add_zero]
  · rw [tlsFailures_snoc]
    by_cases hip : ip = a
    · subst hip
      rw [if_pos rfl, hsec]
      cases hf : flags.blockTlsAbusers with
      | false =>
        rw [SecurityChecker.recordTlsFailure_off (h.flags_eq ▸ hf), h.blocked, hf]; simp
      | true =>
        obtain ⟨-, hb⟩ := SecurityChecker.recordTlsFailure_on ip (h.flags_eq ▸ hf)
        rw [hb, h.blocked, h.flags_eq, h.tls hf, hf]
        simpa only [true_and, tlsLimit] using limit_step ..
    · rw [if_neg (by simp [Ne.symm hip]), Nat.add_zero, ← h.blocked ip]
      simp only [SecurityChecker.Blocked, (hother ip hip).2]

theorem Counted.step (h : Counted maxPerIp flags past s) {e : ServerEvent}
    (hs : s.step e = some s') : Counted maxPerIp flags (past ++ [e]) s' := by
  cases moves_of_step hs with
  | dropped => exact h.frame (fun _ => nofun) rfl fun _ => rfl
  | refused hp hr => exact h.refused hr
  | accepted hp hr => exact h.accepted hr
  | handshakeOk ht => exact h.frame (fun _ => nofun) rfl fun _ => countP_replace_same ht rfl
  | handshakeFailed ht => exact h.handshakeFailed rfl fun _ => countP_replace_same ht rfl
  | finished ht => exact h.finished ht

theorem counted_of_run {es : List ServerEvent}
    (hrun : exec Server.step (start maxPerIp flags maxConns) es = some s) : Counted maxPerIp flags es s :=
  exec_inv_past (I := Counted maxPerIp flags) (fun _ _ _ _ h hs => h.step hs) counted_start hrun

/-! ## Admission -/

theorem Counted.refuses_iff (h : Counted maxPerIp flags past s) (ip : IpAddr) :
    s.security.Refuses ip ↔
      s.live ip = maxPerIp ∨ (flags.blockTlsAbusers = true ∧ tlsLimit flags ≤ tlsFailures past ip) := by
  have hle := h.le_max ip
  rw [SecurityChecker.refuses_iff, h.blocked, h.max_eq, h.count]
  exact or_congr_left ⟨fun hm => by omega, fun he => by omega⟩

/-- What an event does to the checker, it does to the entries of its own address. -/
theorem step_security {e : ServerEvent} (hs : s.step e = some s') :
    SecurityChecker.SameButCount e.ip s.security s'.security ∨
      s'.security = s.security.recordTlsFailure e.ip := by
  cases moves_of_step hs with
  | dropped => exact .inl (.refl ..)
  | refused => exact .inl (s.security.acquire_same _)
  | accepted => exact .inl (s.security.acquire_same _)
  | handshakeOk => exact .inl (.refl ..)
  | handshakeFailed => exact .inr rfl
  | finished => exact .inl (s.security.release_same _)

/-- The decision for an address is not touched by the events of the others. -/
theorem refuses_step_other {e : ServerEvent} {ip : IpAddr} (hip : e.ip ≠ ip)
    (hs : s.step e = some s') : s'.security.Refuses ip ↔ s.security.Refuses ip := by
  rw [SecurityChecker.refuses_iff, SecurityChecker.refuses_iff]
  rcases step_security hs with h | h
  · simp only [h.max, h.other ip hip.symm, SecurityChecker.Blocked, h.blocked]
  · obtain ⟨hmax, -, hconn, hother⟩ := s.security.recordTlsFailure_frame e.ip
    simp only [h, hmax, SecurityChecker.connectionCount, hconn, SecurityChecker.Blocked,
      (hother ip hip.symm).2]

/-- A connection dropped for want of a permit, or refused by the checker, leaves
the live tasks as they are. -/
theorem step_refused {l : Listener} {a : IpAddr} (hr : s.permits l = 0 ∨ s.security.Refuses a)
    (hs : s.step (.accept l a) = some s') : s'.tasks = s.tasks := by
  cases moves_of_step hs with
  | dropped => rfl
  | refused => rfl
  | accepted hp hok => exact absurd (hr.resolve_left hp) hok

/-- **Connection admission.** After every run of the two listeners the checker
counts the live tasks of an address, within the limit, and refuses the address
exactly when the limit is reached or its TLS failures have blocked it. The events
of another address do not change its decision, and a refused connection changes no
count. -/
theorem connection_admission {es : List ServerEvent}
    (hrun : exec Server.step (start maxPerIp flags maxConns) es = some s) (ip : IpAddr) :
    s.security.connectionCount ip = s.live ip ∧
      s.live ip ≤ maxPerIp ∧
      (s.security.Refuses ip ↔
        s.live ip = maxPerIp ∨
          (flags.blockTlsAbusers = true ∧ max 1 flags.maxTlsFailures.toNat ≤ tlsFailures es ip)) ∧
      (∀ e s', e.ip ≠ ip → s.step e = some s' → (s'.security.Refuses ip ↔ s.security.Refuses ip)) ∧
      ∀ l a s', s.permits l = 0 ∨ s.security.Refuses a → s.step (.accept l a) = some s' →
        s'.live ip = s.live ip := by
  have h := counted_of_run hrun
  refine ⟨h.count ip, h.le_max ip, h.refuses_iff ip, fun e s' hip hs => refuses_step_other hip hs,
    fun l a s' hr hs => ?_⟩
  unfold live
  rw [step_refused hr hs]

/-- One address reaches its limit of one connection, and the other is blocked by a
failed handshake. -/
theorem connection_admission_two_clients :
    ∃ s, exec Server.step (start 1 { maxTlsFailures := 1 } 8)
        [.accept .http (.v4 1), .accept .https (.v4 2), .handshakeFailed (.v4 2),
          .finish ⟨.v4 2, .https, .failed⟩] = some s ∧
      s.security.Refuses (.v4 1) ∧ s.security.Refuses (.v4 2) ∧ s.live (.v4 2) = 0 := by
  obtain ⟨s, hs⟩ : ∃ s, exec Server.step (start 1 { maxTlsFailures := 1 } 8)
    [.accept .http (.v4 1), .accept .https (.v4 2), .handshakeFailed (.v4 2),
      .finish ⟨.v4 2, .https, .failed⟩] = some s := ⟨_, rfl⟩
  have hlive : s.live (.v4 1) = 1 ∧ s.live (.v4 2) = 0 := by cases hs; decide
  have h := connection_admission hs
  exact ⟨s, hs, (h (.v4 1)).2.2.1.mpr (.inl hlive.1), (h (.v4 2)).2.2.1.mpr (.inr ⟨rfl, by decide⟩), hlive.2⟩

end Server

end Curf
