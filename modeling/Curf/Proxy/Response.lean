import Curf.Crates
import Curf.Lib.Multimap
import Curf.Proxy.Host

/-!
# Responses

A `Response` is built by a builder whose parts are checked and which is unwrapped at
the end, so a part that is refused ends the process. `inject_extra_headers` puts the
configured headers of a domain on a response, each in the place of what has its name;
a pair that is no valid header is left out.
-/

namespace Curf

open Lib Lib.Multimap

structure Response where
  status : Nat
  headers : HeaderMap
  body : Bytes
  deriving DecidableEq, Repr

/-- `insert`, which panics when the map is full. -/
def HeaderMap.insert (C : Crates) (headers : HeaderMap) (name : String) (value : Bytes) :
    Except Panic HeaderMap :=
  match putWithin C.maxHeaders headers name value with
  | some headers => .ok headers
  | none => .error .headerMap

/-- `Response::builder()` with a status, headers and a body, unwrapped. -/
def Response.build (C : Crates) (status : Nat) (headers : HeaderMap) (body : Bytes) :
    Except Panic Response :=
  if headers.all fun h => C.validValue h.2 then .ok ⟨status, headers, body⟩ else .error .response

/-! ## Errors -/

/-- The headers of `error_response`. -/
def textErrorHeaders : HeaderMap :=
  [("content-type", .ofString "text/plain; charset=utf-8"), ("cache-control", .ofString "no-store")]

/-- The headers of `html_error`. -/
def htmlErrorHeaders : HeaderMap :=
  [("content-type", .ofString "text/html; charset=utf-8"), ("cache-control", .ofString "no-store")]

def errorResponse (C : Crates) (status : Nat) (message : String) : Except Panic Response :=
  Response.build C status textErrorHeaders (decimal status ++ .ofString (" " ++ message ++ "\n"))

def htmlError (C : Crates) (status : Nat) (title body : String) : Except Panic Response :=
  Response.build C status htmlErrorHeaders
    (.ofString "<!DOCTYPE html>\n<html>\n<head><title>" ++ decimal status ++ .ofString (" " ++ title ++
        "</title>\n<style>body\x7bfont-family:sans-serif;text-align:center;padding:4em\x7dh1\x7bfont-size:3em\x7d" ++
        "p\x7bcolor:#666\x7d</style>\n</head>\n<body>\n<h1>") ++ decimal status ++ .ofString ("</h1>\n<p>" ++ body ++
        "</p>\n<hr><small>curf</small>\n</body>\n</html>"))

/-! ## Extra headers -/

/-- The header that a configured pair stands for, if it is a valid one. -/
def ExtraHeader.parse (C : Crates) (h : ExtraHeader) : Option (String × Bytes) :=
  match C.parseHeaderName h.name with
  | some name => if C.validValue (.ofString h.value) then some (name, .ofString h.value) else none
  | none => none

/-- The valid headers among the configured ones. -/
def DomainConfig.extraHeaders (C : Crates) (cfg : DomainConfig) : HeaderMap :=
  cfg.headers.filterMap (·.parse C)

/-- The loop of `inject_extra_headers`. -/
def insertExtra (C : Crates) : List ExtraHeader → HeaderMap → Except Panic HeaderMap
  | [], headers => .ok headers
  | h :: hs, headers =>
    match h.parse C with
    | none => insertExtra C hs headers
    | some (name, value) =>
      match headers.insert C name value with
      | .error e => .error e
      | .ok headers => insertExtra C hs headers

def injectExtraHeaders (C : Crates) (resp : Response) (host : Text) (domainConfigs : Domains) :
    Except Panic Response :=
  match domainConfigs.find host with
  | none => .ok resp
  | some (_, cfg) =>
    match insertExtra C cfg.headers resp.headers with
    | .error e => .error e
    | .ok headers => .ok { resp with headers }

variable {C : Crates} {status : Nat} {headers : HeaderMap} {body : Bytes}

theorem Response.build_of_valid (h : headers.all (fun h => C.validValue h.2) = true) :
    Response.build C status headers body = .ok ⟨status, headers, body⟩ := if_pos h

/-- Headers whose values are plain are accepted. -/
theorem Response.build_of_plain (h : headers.all (fun h => h.2.plain) = true) :
    Response.build C status headers body = .ok ⟨status, headers, body⟩ := by
  refine build_of_valid ?_
  rw [List.all_eq_true] at h ⊢
  exact fun p hp => validValue_of_plain (h p hp)

theorem errorResponse_eq (C : Crates) (status : Nat) (message : String) :
    ∃ body, errorResponse C status message = .ok ⟨status, textErrorHeaders, body⟩ :=
  ⟨_, Response.build_of_plain (by decide)⟩

theorem htmlError_eq (C : Crates) (status : Nat) (title body : String) :
    ∃ page, htmlError C status title body = .ok ⟨status, htmlErrorHeaders, page⟩ :=
  ⟨_, Response.build_of_plain (by decide)⟩

/-- The loop puts the valid headers, as far as the map has room for them. -/
theorem insertExtra_eq (C : Crates) (hs : List ExtraHeader) (headers : HeaderMap) :
    insertExtra C hs headers =
      if Fits C.maxHeaders headers (hs.filterMap (·.parse C)) then
        .ok (putAll headers (hs.filterMap (·.parse C)))
      else .error .headerMap := by
  have hloop : insertExtra C hs headers =
      match putAllWithin C.maxHeaders headers (hs.filterMap (·.parse C)) with
      | some headers => .ok headers
      | none => .error .headerMap := by
    induction hs generalizing headers with
    | nil => rfl
    | cons h hs ih =>
      rw [insertExtra, List.filterMap_cons]
      cases h.parse C with
      | none => exact ih headers
      | some p =>
        dsimp only [HeaderMap.insert]
        rw [putAllWithin]
        cases putWithin C.maxHeaders headers p.1 p.2 with
        | none => rfl
        | some headers => exact ih headers
  rw [hloop, putAllWithin_eq]
  by_cases hfits : Fits C.maxHeaders headers (hs.filterMap (·.parse C))
  · rw [if_pos hfits, if_pos hfits]
  · rw [if_neg hfits, if_neg hfits]

/-- **What `inject_extra_headers` does.** -/
theorem injectExtraHeaders_eq (C : Crates) (resp : Response) (host : Text) (d : Domains) :
    injectExtraHeaders C resp host d =
      match d.find host with
      | none => .ok resp
      | some (_, cfg) =>
        if Fits C.maxHeaders resp.headers (cfg.extraHeaders C) then
          .ok { resp with headers := putAll resp.headers (cfg.extraHeaders C) }
        else .error .headerMap := by
  unfold injectExtraHeaders DomainConfig.extraHeaders
  cases d.find host with
  | none => rfl
  | some e =>
    dsimp only
    rw [insertExtra_eq]
    by_cases hfits : Fits C.maxHeaders resp.headers (e.2.headers.filterMap (·.parse C))
    · rw [if_pos hfits, if_pos hfits]
    · rw [if_neg hfits, if_neg hfits]

end Curf
