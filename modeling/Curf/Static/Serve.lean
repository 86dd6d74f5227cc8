import Curf.Proxy.Response

/-!
# Serving static files

`serve` answers a GET or HEAD request with a file, the index file of a directory or
its listing, and with `None` when there is nothing to serve. The file system, at the
time of the request, is a parameter.

`serve_eq_error_iff` says when it panics: on a file with a modification time that
has no date.
-/

namespace Curf

open Lib Lib.UnixPath

inductive Method where
  | get
  | head
  | other (name : String)
  deriving DecidableEq, Repr

structure Metadata where
  len : UInt64
  isDir : Bool
  modified : Option SystemTime
  deriving DecidableEq, Repr

/-- What the calls of `tokio::fs` answer. -/
structure FileSystem where
  metadata : Bytes → Option Metadata
  read : Bytes → Option Bytes
  /-- The entries that can be read from a directory, with whether they are directories. -/
  readDir : Bytes → List (Text × Bool)

namespace Metadata

/-- The seconds of the modification time, zero for a time before the epoch. -/
def mtime (m : Metadata) : Nat :=
  match m.modified with
  | some t => if t < 0 then 0 else t.toNat / 10 ^ 9
  | none => 0

def etag (m : Metadata) : Text :=
  '"' :: Nat.toDigits 10 m.len.toNat ++ '-' :: Nat.toDigits 10 m.mtime ++ ['"']

/-- The conditional headers of a request say that its copy of the file is current. -/
def notModified (C : Crates) (m : Metadata) (reqHeaders : HeaderMap) : Bool :=
  (match reqHeaders.get "if-none-match" with
    | some inm => (headerToStr inm).getD [] = m.etag
    | none => false) ||
  match ((reqHeaders.get "if-modified-since").bind headerToStr).bind C.parseHttpDate, m.modified with
  | some imsTime, some fileTime => fileTime ≤ imsTime
  | _, _ => false

/-- The value of `Last-Modified`. -/
def lastModified (C : Crates) (m : Metadata) : Except Panic Bytes :=
  match m.modified with
  | some t => C.fmtHttpDate t
  | none => .ok []

end Metadata

/-- Whether `cmp` puts the name of `a` no later than that of `b`. -/
def nameLe (a b : Text × Bool) : Bool := !decide (utf8 b.1 < utf8 a.1)

/-- `trim_end_matches('/')`. -/
def trimEndSlashes (path : Bytes) : Bytes := (path.reverse.dropWhile (· = 47)).reverse

namespace StaticFileServer

def serveFile (C : Crates) (fs : FileSystem) (path : Bytes) (method : Method) (reqHeaders : HeaderMap) :
    Except Panic (Option Response) :=
  match fs.metadata path with
  | none => .ok none
  | some m =>
    if m.notModified C reqHeaders then (Response.build C 304 [] []).map some
    else if method = .head then
      (Response.build C 200
        [("content-type", C.mimeType path), ("content-length", decimal m.len.toNat), ("etag", utf8 m.etag)]
        []).map some
    else
      match fs.read path with
      | none => .ok none
      | some data =>
        match m.lastModified C with
        | .error e => .error e
        | .ok lastModified =>
          (Response.build C 200
            [("content-type", C.mimeType path), ("content-length", decimal data.length), ("etag", utf8 m.etag),
              ("last-modified", lastModified), ("cache-control", Bytes.ofString "public, max-age=3600")]
            data).map some

/-- One line of a listing. -/
def listingLine (base : Bytes) (entry : Text × Bool) : Bytes :=
  let name := utf8 entry.1 ++ Bytes.ofString (if entry.2 then "/" else "")
  Bytes.ofString "<a href=\"" ++ base ++ Bytes.ofString "/" ++ name ++ Bytes.ofString "\">" ++ name ++ Bytes.ofString "</a>"

def directoryListing (C : Crates) (fs : FileSystem) (dir urlPath : Bytes) : Except Panic Response :=
  let entries := (fs.readDir dir).mergeSort nameLe
  let base := trimEndSlashes urlPath
  Response.build C 200 [("content-type", Bytes.ofString "text/html; charset=utf-8")]
    (Bytes.ofString "<!DOCTYPE html><html><head><title>Index of " ++ base ++ Bytes.ofString ("</title>" ++
      "<style>body\x7bfont-family:monospace;padding:1em\x7da\x7bdisplay:block;margin:.2em 0\x7d</style></head>" ++
      "<body><h1>Index of ") ++ base ++ Bytes.ofString "</h1><hr>" ++
      (if base.isEmpty then [] else Bytes.ofString "<a href=\"../\">../</a>") ++
      entries.flatMap (listingLine base) ++ Bytes.ofString "<hr></body></html>")

/-- The first index file there is in a directory. -/
def indexIn (fs : FileSystem) (sf : StaticFileServer) (dir : Bytes) : Option Bytes :=
  (sf.indexFiles.map fun idx => push dir (Bytes.ofString idx)).find? fun candidate => (fs.metadata candidate).isSome

def serve (C : Crates) (fs : FileSystem) (sf : StaticFileServer) (urlPath : Bytes) (method : Method)
    (reqHeaders : HeaderMap) : Except Panic (Option Response) :=
  if method ≠ .get ∧ method ≠ .head then .ok none
  else
    match sf.safePath C.percentDecode urlPath with
    | none => .ok none
    | some filePath =>
      match fs.metadata filePath with
      | none => .ok none
      | some m =>
        if m.isDir then
          match sf.indexIn fs filePath with
          | some candidate => serveFile C fs candidate method reqHeaders
          | none => if sf.autoindex then (directoryListing C fs filePath urlPath).map some else .ok none
        else serveFile C fs filePath method reqHeaders

variable {C : Crates} {fs : FileSystem} {sf : StaticFileServer} {urlPath path : Bytes} {method : Method}
  {reqHeaders : HeaderMap} {e : Panic}

/-! ## Panics -/

theorem utf8_append (s t : Text) : utf8 (s ++ t) = utf8 s ++ utf8 t := List.flatMap_append

theorem plain_etag (m : Metadata) : Bytes.plain (utf8 m.etag) = true := by
  have hquote : Bytes.plain (utf8 ['"']) = true := by decide
  have hdash : Bytes.plain (utf8 ['-']) = true := by decide
  have hlen : Bytes.plain (utf8 (Nat.toDigits 10 m.len.toNat)) = true := plain_decimal _
  have hmtime : Bytes.plain (utf8 (Nat.toDigits 10 m.mtime)) = true := plain_decimal _
  show Bytes.plain (utf8 (['"'] ++ Nat.toDigits 10 m.len.toNat ++ (['-'] ++ Nat.toDigits 10 m.mtime) ++ ['"'])) = true
  simp only [utf8_append, plain_append, hquote, hdash, hlen, hmtime, Bool.and_self]

/-- `GET` on the file comes to a modification time without a date. -/
def UndatedFile (C : Crates) (fs : FileSystem) (path : Bytes) (reqHeaders : HeaderMap) : Prop :=
  ∃ m, fs.metadata path = some m ∧ m.notModified C reqHeaders = false ∧ (fs.read path).isSome = true ∧
    ∃ t, m.modified = some t ∧ Crates.Undated t

/-- The file that is served under a URL path, if it is one. -/
def servedFile (C : Crates) (fs : FileSystem) (sf : StaticFileServer) (urlPath : Bytes) : Option Bytes :=
  match sf.safePath C.percentDecode urlPath with
  | none => none
  | some filePath =>
    match fs.metadata filePath with
    | none => none
    | some m => if m.isDir then sf.indexIn fs filePath else some filePath

theorem lastModified_eq_error_iff (m : Metadata) :
    m.lastModified C = .error e ↔ e = .httpDate ∧ ∃ t, m.modified = some t ∧ Crates.Undated t := by
  unfold Metadata.lastModified Crates.fmtHttpDate
  cases m.modified with
  | none => simp
  | some t =>
    by_cases h : Crates.Undated t
    · simp [h, eq_comm]
    · simp [h]

theorem lastModified_valid {m : Metadata} {bs : Bytes} (h : m.lastModified C = .ok bs) :
    C.validValue bs = true := by
  unfold Metadata.lastModified at h
  split at h
  · exact fmtHttpDate_valid h
  · cases h; rfl

/-- The headers of a file are accepted, so that only the date can fail. -/
theorem serveFile_eq_error_iff : serveFile C fs path method reqHeaders = .error e ↔
    e = .httpDate ∧ method ≠ .head ∧ UndatedFile C fs path reqHeaders := by
  unfold serveFile UndatedFile
  cases hm : fs.metadata path with
  | none => simp
  | some m =>
    simp only [Option.some.injEq, exists_eq_left']
    cases hn : m.notModified C reqHeaders with
    | true => simp [Response.build, Except.map]
    | false =>
      simp only [Bool.false_eq_true, if_false, true_and]
      have hmime := C.mimeType_plain path
      by_cases hh : method = .head
      · rw [if_pos hh, Response.build_of_plain (by simp [hmime, plain_decimal, plain_etag])]
        simp [Except.map, hh]
      · rw [if_neg hh]
        cases hr : fs.read path with
        | none => simp
        | some data =>
          dsimp only
          have hdate := lastModified_eq_error_iff (C := C) (e := e) m
          cases hl : m.lastModified C with
          | error e' => simpa [hl, hh] using hdate
          | ok bs =>
            dsimp only
            have hno : ¬ (e = .httpDate ∧ ∃ t, m.modified = some t ∧ Crates.Undated t) := by
              rw [← hdate, hl]; exact nofun
            have hcache : (Bytes.ofString "public, max-age=3600").plain = true := by decide
            rw [Response.build_of_valid (by
              simp [validValue_of_plain, hmime, plain_decimal, plain_etag, lastModified_valid hl, hcache])]
            simpa [Except.map, hh] using hno

/-- **When the file server panics**: on `GET` of a file that is read and whose
modification time is before 1970 or after 9999. -/
theorem serve_eq_error_iff : serve C fs sf urlPath method reqHeaders = .error e ↔
    e = .httpDate ∧ method = .get ∧
      ∃ path, servedFile C fs sf urlPath = some path ∧ UndatedFile C fs path reqHeaders := by
  unfold serve servedFile
  have hget : ¬ (method ≠ .get ∧ method ≠ .head) → (method ≠ .head ↔ method = .get) := by
    cases method <;> simp
  by_cases hmethod : method ≠ .get ∧ method ≠ .head
  · simp [hmethod]
  · rw [if_neg hmethod]
    have hget := hget hmethod
    cases hs : sf.safePath C.percentDecode urlPath with
    | none => simp
    | some filePath =>
      cases hm : fs.metadata filePath with
      | none => simp [hm]
      | some m =>
        cases hd : m.isDir with
        | false => simp [hm, hd, serveFile_eq_error_iff, hget]
        | true =>
          cases hi : sf.indexIn fs filePath with
          | some candidate => simp [hm, hd, hi, serveFile_eq_error_iff, hget]
          | none =>
            have hlist : directoryListing C fs filePath urlPath ≠ .error e := by
              unfold directoryListing
              rw [Response.build_of_plain (by decide)]
              exact nofun
            cases ha : sf.autoindex with
            | false => simp [hm, hd, hi]
            | true =>
              cases hl : directoryListing C fs filePath urlPath with
              | error e' =>
                have := hl ▸ hlist
                simp [hm, hd, hi, hl, Except.map]
                rintro rfl
                exact absurd rfl this
              | ok r => simp [hm, hd, hi, hl, Except.map]

end StaticFileServer

end Curf
