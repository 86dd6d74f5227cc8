import Curf.Basic
import Curf.Config
import Curf.Balancer.Backend

/-!
# Selecting a backend

A `LoadBalancer` is the list of a domain's backends with the strategy and the
round-robin cursor, a 64-bit atomic that wraps. `select` asks backends whether
they are healthy, in the order of the strategy, and acquires the one it returns;
it names a backend by its URL and, for the guard, by its position.
-/

namespace Curf

structure LoadBalancer where
  backends : List Backend
  strategy : LoadBalance
  cursor : UInt64
  deriving DecidableEq, Repr

namespace LoadBalancer

def new (cfg : DomainConfig) : LoadBalancer := ⟨cfg.backends.map .new, cfg.loadBalance, 0⟩

/-- `backends[i].is_healthy()`. -/
def ask (bs : List Backend) (i : Nat) (now : UInt64) : Bool × List Backend :=
  ((bs[i]?.map fun b => (b.isHealthy now).1).getD false, bs.modify i fun b => (b.isHealthy now).2)

def roundRobinFrom (now : UInt64) : Nat → LoadBalancer → Option Nat × LoadBalancer
  | 0, lb => (none, lb)
  | k + 1, lb =>
    let idx := lb.cursor.toNat % lb.backends.length
    let asked := ask lb.backends idx now
    let lb := { lb with backends := asked.2, cursor := lb.cursor + 1 }
    if asked.1 then (some idx, lb) else roundRobinFrom now k lb

def roundRobin (lb : LoadBalancer) (now : UInt64) : Option Nat × LoadBalancer :=
  roundRobinFrom now lb.backends.length lb

/-- The position of the least active backend, the first of them, among those that
answered to be healthy. -/
def leastActive (asked : List (Bool × Backend)) : Option Nat :=
  ((List.range asked.length).filter fun i => (asked[i]?.map (·.1)).getD false).minOn?
    fun i => (asked[i]?.map (·.2.active.toNat)).getD 0

def leastConnections (lb : LoadBalancer) (now : UInt64) : Option Nat × LoadBalancer :=
  let asked := lb.backends.map (·.isHealthy now)
  (leastActive asked, { lb with backends := asked.map (·.2) })

/-- The hash of a client address: an IPv4 address, or the last four octets of an
IPv6 address. -/
def addrHash : Option IpAddr → Nat
  | some (.v4 addr) => addr.toNat
  | some (.v6 addr) => (addr.setWidth 32).toNat
  | none => 0

/-- Ask the backends in the positions `is` up to the first healthy one. -/
def walk (now : UInt64) : List Nat → List Backend → Option Nat × List Backend
  | [], bs => (none, bs)
  | i :: is, bs =>
    let asked := ask bs i now
    if asked.1 then (some i, asked.2) else walk now is asked.2

/-- The positions `ip_hash` goes through. -/
def hashVisits (n : Nat) (ip : Option IpAddr) : List Nat :=
  (List.range n).map fun i => (addrHash ip + i) % n

def ipHash (lb : LoadBalancer) (ip : Option IpAddr) (now : UInt64) : Option Nat × LoadBalancer :=
  let r := walk now (hashVisits lb.backends.length ip) lb.backends
  (r.1, { lb with backends := r.2 })

def choose (lb : LoadBalancer) (ip : Option IpAddr) (now : UInt64) : Option Nat × LoadBalancer :=
  match lb.strategy with
  | .roundRobin => lb.roundRobin now
  | .leastConnections => lb.leastConnections now
  | .ipHash => lb.ipHash ip now

/-- The URL of the backend in position `i`. -/
def urlAt (lb : LoadBalancer) (i : Nat) : String := (lb.backends[i]?.map (·.url)).getD ""

/-- Pick an available backend: its URL and, for the guard, its position. -/
def select (lb : LoadBalancer) (clientIp : Option IpAddr) (now : UInt64) :
    Option (String × Nat) × LoadBalancer :=
  if lb.backends.isEmpty then (none, lb)
  else
    match lb.choose clientIp now with
    | (none, lb) => (none, lb)
    | (some i, lb) => (some (lb.urlAt i, i), { lb with backends := lb.backends.modify i .acquire })

/-- The guard of the backend in position `i` is dropped. -/
def dropGuard (lb : LoadBalancer) (i : Nat) : LoadBalancer :=
  { lb with backends := lb.backends.modify i .release }

/-- The first backend with the URL `url`. -/
def find (lb : LoadBalancer) (url : String) : Option Nat := lb.backends.findIdx? (·.url = url)

def success (lb : LoadBalancer) (url : String) : LoadBalancer :=
  match lb.find url with
  | none => lb
  | some i => { lb with backends := lb.backends.modify i .recordSuccess }

def failure (lb : LoadBalancer) (url : String) (now : UInt64) : LoadBalancer :=
  match lb.find url with
  | none => lb
  | some i => { lb with backends := lb.backends.modify i (·.recordFailure now) }

end LoadBalancer

end Curf
