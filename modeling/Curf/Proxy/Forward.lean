import Curf.Balancer.Checked
import Curf.Static.Serve

/-!
# Forwarding a request to a backend

`proxy_http` and `proxy_websocket` pick a backend, connect to the address in its URL
and send the request on with forwarding headers added; they differ in what they make
of the reply. `forward` is what they have in common. The network is a parameter, and
with the result `forward` returns the exchange that took place, if any.
-/

namespace Curf

open Lib Lib.Multimap

structure Request where
  method : Method
  path : Text
  query : Option Text
  pathAndQuery : Option Text
  headers : HeaderMap
  body : Bytes
  deriving DecidableEq, Repr

/-! ## Addresses -/

/-- The eight groups of an IPv6 address. -/
def groups (addr : BitVec 128) : List Nat :=
  (List.range 8).map fun i => addr.toNat / 2 ^ (16 * (7 - i)) % 2 ^ 16

/-- Where the longest run of zeros begins, the first of them, and its length. -/
def longestZeros (gs : List Nat) : Nat × Nat :=
  (List.range gs.length).foldl (fun best i =>
    let len := ((gs.drop i).takeWhile (· = 0)).length
    if best.2 < len then (i, len) else best) (0, 0)

def ipv4Text (addr : Nat) : Text :=
  ['.'].intercalate ((List.range 4).map fun i => Nat.toDigits 10 (addr / 2 ^ (8 * (3 - i)) % 2 ^ 8))

def groupsText (gs : List Nat) : Text := [':'].intercalate (gs.map (Nat.toDigits 16))

/-- `to_string` of an address. -/
def IpAddr.text : IpAddr → Text
  | .v4 addr => ipv4Text addr.toNat
  | .v6 addr =>
    if addr.toNat / 2 ^ 32 = 2 ^ 16 - 1 then "::ffff:".toList ++ ipv4Text (addr.toNat % 2 ^ 32)
    else
      let gs := groups addr
      let zeros := longestZeros gs
      if 1 < zeros.2 then
        groupsText (gs.take zeros.1) ++ "::".toList ++ groupsText (gs.drop (zeros.1 + zeros.2))
      else groupsText gs

/-- The address that is connected to for a backend URL. -/
def backendAddr (uri : Uri) : Text :=
  uri.host.getD "localhost".toList ++ ':' :: Nat.toDigits 10 (uri.port.getD 80).toNat

/-! ## Forwarding headers -/

/-- `HeaderValue::from_str`, with the empty value for a text that is none. -/
def valueOrEmpty (C : Crates) (s : Text) : Bytes := if C.validValue (utf8 s) then utf8 s else []

/-- The headers that `add_forwarding_headers` inserts. -/
def forwardingHeaders (C : Crates) (headers : HeaderMap) (peer : IpAddr) (host : Text) : HeaderMap :=
  let xff :=
    match (headers.get "x-forwarded-for").bind headerToStr with
    | some existing => existing ++ ", ".toList ++ peer.text
    | none => peer.text
  [("x-forwarded-for", valueOrEmpty C xff), ("x-real-ip", valueOrEmpty C peer.text)] ++
    if host ≠ [] ∧ C.validValue (utf8 host) then [("x-forwarded-host", utf8 host)] else []

def addForwardingHeaders (C : Crates) (req : Request) (peer : IpAddr) (host : Text) : Except Panic Request :=
  match putAllWithin C.maxHeaders req.headers (forwardingHeaders C req.headers peer host) with
  | some headers => .ok { req with headers }
  | none => .error .headerMap

/-! ## Forwarding -/

/-- What the network does: whether a connection is made in time, and the reply to a
request sent over it, if it comes in time. -/
structure Network where
  connect : Text → Bool
  send : Text → Request → Option Response

/-- A request sent to a backend, and the reply. -/
structure Exchange where
  addr : Text
  sent : Request
  reply : Option Response
  deriving DecidableEq, Repr

inductive ProxyError where
  | noBackend
  | allDown
  | badUri
  | cannotConnect
  | requestFailed
  | rejected (status : Nat)
  deriving DecidableEq, Repr

structure Forwarded where
  result : Except ProxyError Response
  exchange : Option Exchange
  lbManager : DashMap Text LoadBalancer

variable (C : Crates) (net : Network) (now : UInt64) (lbs : DashMap Text LoadBalancer) (req : Request)
  (host : Text) (peer : IpAddr)

/-- `proxy_http` and `proxy_websocket` up to the reply, for which `onReply` is done to
the load balancer. The guard is dropped at the end. -/
def forward (onReply : LoadBalancer → String → LoadBalancer) : Except Panic Forwarded :=
  match lbs host with
  | none => .ok ⟨.error .noBackend, none, lbs⟩
  | some lb =>
    match lb.selectChecked (some peer) now with
    | .error e => .error e
    | .ok (none, lb) => .ok ⟨.error .allDown, none, lbs.insert host lb⟩
    | .ok (some (url, i), lb) =>
      let done (lb : LoadBalancer) := lbs.insert host (lb.dropGuard i)
      match C.parseUri url.toList, C.parseUri (req.pathAndQuery.getD ['/']) with
      | some uri, some _ =>
        match addForwardingHeaders C { req with pathAndQuery := some (req.pathAndQuery.getD ['/']) } peer host with
        | .error e => .error e
        | .ok sent =>
          if net.connect (backendAddr uri) = false then .ok ⟨.error .cannotConnect, none, done lb⟩
          else
            match net.send (backendAddr uri) sent with
            | none => .ok ⟨.error .requestFailed, some ⟨backendAddr uri, sent, none⟩, done lb⟩
            | some reply =>
              .ok ⟨.ok reply, some ⟨backendAddr uri, sent, some reply⟩, done (onReply lb url)⟩
      | _, _ => .ok ⟨.error .badUri, none, done lb⟩

/-- The reply is passed on. -/
def proxyHttp : Except Panic Forwarded := forward C net now lbs req host peer .success

/-- The client gets a response of its own. -/
def proxyWebsocket : Except Panic Forwarded :=
  match forward C net now lbs req host peer fun lb _ => lb with
  | .error e => .error e
  | .ok f =>
    match f.result with
    | .error _ => .ok f
    | .ok reply =>
      if reply.status ≠ 101 then .ok { f with result := .error (.rejected reply.status) }
      else
        match Response.build C 101 [] [] with
        | .error e => .error e
        | .ok resp => .ok { f with result := .ok resp }

def isWebsocketUpgrade : Bool :=
  ((((req.headers.get "upgrade").bind headerToStr).getD []).map Char.toLower) = "websocket".toList

/-! ## Where a request goes -/

/-- The address that a request is sent to, if it gets as far as that. -/
def destination : Option Text :=
  (lbs host).bind fun lb => (lb.select (some peer) now).1.bind fun picked =>
    (C.parseUri picked.1.toList).bind fun uri =>
      (C.parseUri (req.pathAndQuery.getD ['/'])).map fun _ => backendAddr uri

/-- The request as the backend gets it. -/
def forwardedRequest : Request :=
  { req with
    pathAndQuery := some (req.pathAndQuery.getD ['/'])
    headers := putAll req.headers (forwardingHeaders C req.headers peer host) }

/-- The exchange with a backend. -/
def exchange : Option Exchange :=
  (destination C now lbs req host peer).bind fun addr =>
    if net.connect addr then
      some ⟨addr, forwardedRequest C req host peer, net.send addr (forwardedRequest C req host peer)⟩
    else none

/-- The request's headers leave room for the forwarding headers. -/
def FitsForwarding : Prop := Fits C.maxHeaders req.headers (forwardingHeaders C req.headers peer host)

instance : Decidable (FitsForwarding C req host peer) := inferInstanceAs (Decidable (Fits _ _ _))

variable {C net now lbs req host peer} {onReply : LoadBalancer → String → LoadBalancer} {f : Forwarded}
  {e : Panic}

theorem addForwardingHeaders_eq :
    addForwardingHeaders C { req with pathAndQuery := some (req.pathAndQuery.getD ['/']) } peer host =
      if FitsForwarding C req host peer then .ok (forwardedRequest C req host peer) else .error .headerMap := by
  have hroom := putAllWithin_eq C.maxHeaders req.headers (forwardingHeaders C req.headers peer host)
  by_cases h : FitsForwarding C req host peer
  · rw [if_pos (show Fits _ _ _ from h)] at hroom
    rw [if_pos h, addForwardingHeaders, hroom]
    rfl
  · rw [if_neg (show ¬ Fits _ _ _ from h)] at hroom
    rw [if_neg h, addForwardingHeaders, hroom]

/-- The result of forwarding, given the exchange. -/
def resultOf (x : Option Exchange) : Option Response := x.bind (·.reply)

/-- **What `forward` does.** It panics for want of room in the request's headers only;
otherwise the exchange takes place, and its reply is the result. -/
theorem forward_spec (onReply : LoadBalancer → String → LoadBalancer) :
    ((destination C now lbs req host peer).isSome = true ∧ ¬ FitsForwarding C req host peer →
        forward C net now lbs req host peer onReply = .error .headerMap) ∧
      (¬ ((destination C now lbs req host peer).isSome = true ∧ ¬ FitsForwarding C req host peer) →
        ∃ f, forward C net now lbs req host peer onReply = .ok f ∧
          f.exchange = exchange C net now lbs req host peer ∧
            f.result.toOption = resultOf (exchange C net now lbs req host peer)) := by
  unfold forward exchange destination
  cases lbs host with
  | none => exact ⟨fun h => (nomatch h.1), fun _ => ⟨_, rfl, rfl, rfl⟩⟩
  | some lb =>
    dsimp only [Option.bind_some]
    rw [LoadBalancer.selectChecked_eq]
    obtain ⟨r, lb'⟩ := lb.select (some peer) now
    cases r with
    | none => exact ⟨fun h => (nomatch h.1), fun _ => ⟨_, rfl, rfl, rfl⟩⟩
    | some picked =>
      obtain ⟨url, i⟩ := picked
      dsimp only [Option.bind_some]
      cases C.parseUri url.toList with
      | none => exact ⟨fun h => (nomatch h.1), fun _ => ⟨_, rfl, rfl, rfl⟩⟩
      | some uri =>
        cases C.parseUri (req.pathAndQuery.getD ['/']) with
        | none => exact ⟨fun h => (nomatch h.1), fun _ => ⟨_, rfl, rfl, rfl⟩⟩
        | some _ =>
          dsimp only [Option.bind_some, Option.map_some, Option.isSome_some]
          rw [addForwardingHeaders_eq]
          by_cases hfits : FitsForwarding C req host peer
          · refine ⟨fun h => absurd hfits h.2, fun _ => ?_⟩
            rw [if_pos hfits]
            cases net.connect (backendAddr uri) with
            | false => exact ⟨_, rfl, rfl, rfl⟩
            | true =>
              dsimp only
              cases net.send (backendAddr uri) (forwardedRequest C req host peer) with
              | none => exact ⟨_, rfl, rfl, rfl⟩
              | some reply => exact ⟨_, rfl, rfl, rfl⟩
          · refine ⟨fun _ => ?_, fun h => absurd ⟨rfl, hfits⟩ h⟩
            rw [if_neg hfits]

/-- What the client of a WebSocket request gets for a reply that switches protocols. -/
def switched (reply : Option Response) : Option Response :=
  (reply.filter fun r => r.status = 101).map fun _ => ⟨101, [], []⟩

theorem proxyWebsocket_spec :
    ((destination C now lbs req host peer).isSome = true ∧ ¬ FitsForwarding C req host peer →
        proxyWebsocket C net now lbs req host peer = .error .headerMap) ∧
      (¬ ((destination C now lbs req host peer).isSome = true ∧ ¬ FitsForwarding C req host peer) →
        ∃ f, proxyWebsocket C net now lbs req host peer = .ok f ∧
          f.exchange = exchange C net now lbs req host peer ∧
            f.result.toOption = switched (resultOf (exchange C net now lbs req host peer))) := by
  obtain ⟨herror, hok⟩ := @forward_spec C net now lbs req host peer fun lb _ => lb
  refine ⟨fun h => ?_, fun h => ?_⟩
  · unfold proxyWebsocket
    rw [herror h]
  · obtain ⟨f, hf, hx, hres⟩ := hok h
    unfold proxyWebsocket
    rw [hf, ← hres]
    dsimp only
    cases hr : f.result with
    | error e => exact ⟨f, rfl, hx, by rw [hr]; rfl⟩
    | ok reply =>
      dsimp only
      by_cases hs : reply.status = 101
      · rw [if_neg (not_not.mpr hs), Response.build_of_plain rfl]
        exact ⟨_, rfl, hx, by simp [switched, hs, Except.toOption]⟩
      · rw [if_pos hs]
        exact ⟨_, rfl, hx, by simp [switched, hs, Except.toOption]⟩

end Curf
