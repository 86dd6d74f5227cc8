/-!
# Configuration

The types of `curf.yml` that the modelled components read, with the defaults the
loader fills in.
-/

namespace Curf

/-- Switches of the security features. -/
structure SecurityFlags where
  wafSqli : Bool := true
  wafXss : Bool := true
  wafPathTraversal : Bool := true
  blockTlsAbusers : Bool := true
  /-- TLS failures before an address is blocked. -/
  maxTlsFailures : UInt32 := 10
  blockEmptyUserAgent : Bool := false
  deriving DecidableEq, Repr

/-- Load-balancing strategies. -/
inductive LoadBalance where
  | roundRobin
  | leastConnections
  | ipHash
  deriving DecidableEq, Repr, Inhabited

structure TlsConfig where
  cert : String
  key : String
  deriving DecidableEq, Repr

structure StaticFilesConfig where
  root : String
  index : List String := ["index.html"]
  autoindex : Bool := false
  deriving DecidableEq, Repr

structure HealthCheckConfig where
  enabled : Bool := true
  intervalSecs : UInt64 := 15
  timeoutSecs : UInt64 := 5
  path : String := "/"
  deriving DecidableEq, Repr

structure ExtraHeader where
  name : String
  value : String
  deriving DecidableEq, Repr

structure DomainConfig where
  backends : List String := []
  loadBalance : LoadBalance := .roundRobin
  tls : Option TlsConfig := none
  staticFiles : Option StaticFilesConfig := none
  redirectToHttps : Bool := false
  healthCheck : HealthCheckConfig := {}
  headers : List ExtraHeader := []
  deriving DecidableEq, Repr

end Curf
