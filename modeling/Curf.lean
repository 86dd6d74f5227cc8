import Curf.Lib.Exec
import Curf.Lib.First
import Curf.Lib.Tally
import Curf.Lib.TokenBucket
import Curf.RateLimit.Limiter
import Curf.RateLimit.Interleaving
import Curf.Balancer.Backend
import Curf.Balancer.Breaker
import Curf.Balancer.Select
import Curf.Balancer.Pick
import Curf.Balancer.Complete
import Curf.Security.Checker
import Curf.Server.Listeners
import Curf.Balancer.HalfOpen
import Curf.Balancer.Guards
import Curf.Balancer.Sticky
import Curf.Balancer.Untouched
import Curf.Balancer.Feedback
import Curf.Balancer.SharedBreaker
import Curf.Proxy.Requests
import Curf.Proxy.LiveFailures
import Curf.Balancer.SharedCursor
import Curf.Lib.UnixPath
import Curf.Static.SafePath
import Curf.Lib.Lowercase
import Curf.Lib.AsciiCase
import Curf.Lib.Utf8
import Curf.Security.Traversal
import Curf.Security.Seam
import Curf.Lib.Authority
import Curf.Lib.Cyclic
import Curf.Proxy.Host
import Curf.Balancer.Rotation
import Curf.Server.GlobalCap
import Curf.RateLimit.Sequential
import Curf.Crates
import Curf.Lib.Multimap
import Curf.Proxy.Response
import Curf.Balancer.Checked
import Curf.Static.Serve
import Curf.Proxy.Forward
import Curf.Proxy.Handle
import Curf.Proxy.Panics
import Curf.Proxy.WebSocket
import Curf.Proxy.ExtraHeaders
import Curf.Server.Blocked
import Curf.Health.Target
import Curf.Health.Checker
import Curf.Health.DeadBackend
import Curf.Lib.TreeWalk
import Curf.Static.Climb
import Curf.Static.FileUrl
import Curf.Security.Written
import Curf.Security.Encoding
import Curf.Static.Validators
import Curf.Balancer.Scan
import Curf.RateLimit.Sustained
import Curf.Static.Revalidate
import Curf.Static.Head
import Curf.Static.Index
import Curf.Proxy.Chain
import Curf.Lib.UriReference
import Curf.Health.Status
import Curf.Proxy.Redirect
import Curf.Lib.Html
import Curf.Static.Markup
import Curf.Static.DecodedPath
import Curf.Static.Links
import Curf.Static.Undotted
import Curf.Balancer.Overlap
import Curf.Lib.StaleMin
import Curf.Balancer.SharedLeast
import Curf.Server.Racing
import Curf.Server.Deadlines
import Curf.Proxy.Isolation
import Curf.Proxy.InFlight
import Curf.Proxy.Uninterrupted
import Curf.Proxy.Tenants
import Curf.Proxy.Held
import Curf.Server.Ssl
import Curf.Server.Startup
import Curf.Static.Coherence
import Curf.Proxy.Gateway
import Curf.Health.Recovery
