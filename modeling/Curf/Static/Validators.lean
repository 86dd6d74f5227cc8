import Curf.Proxy.Handle

/-!
# Validators

A client that has a copy of a file asks with its ETag and its date whether the copy is
current. The date is looked at also where the ETag says that the file is another one:
`changed_not_modified_iff` says when the answer is 304 all the same.
-/

namespace Curf

open Lib

/-- The answer says that the copy of the client is current. -/
def Answers304 (answer : Except Panic (Option Response)) : Prop :=
  ∃ resp, answer = .ok (some resp) ∧ resp.status = 304

variable {C : Crates} {fs : FileSystem} {path : Bytes} {method : Method} {reqHeaders : HeaderMap} {m : Metadata}
  {r : Response}

namespace Metadata

/-- `If-Modified-Since` has a date, and the file is not younger. -/
def UnmodifiedSince (C : Crates) (m : Metadata) (reqHeaders : HeaderMap) : Prop :=
  ∃ imsTime fileTime,
    ((reqHeaders.get "if-modified-since").bind headerToStr).bind C.parseHttpDate = some imsTime ∧
      m.modified = some fileTime ∧ fileTime ≤ imsTime

/-- What `Last-Modified` has for the file is read as the second of its modification time. -/
def ReadsBack (C : Crates) (m : Metadata) : Prop :=
  ∀ lastModified, m.lastModified C = .ok lastModified →
    (headerToStr lastModified).bind C.parseHttpDate = m.modified.map fun t => t / 10 ^ 9 * 10 ^ 9

theorem notModified_iff : m.notModified C reqHeaders = true ↔
    (∃ inm, reqHeaders.get "if-none-match" = some inm ∧ (headerToStr inm).getD [] = m.etag) ∨
      m.UnmodifiedSince C reqHeaders := by
  unfold notModified UnmodifiedSince
  rw [Bool.or_eq_true]
  refine or_congr ?_ ?_
  · cases reqHeaders.get "if-none-match" <;> simp
  · cases ((reqHeaders.get "if-modified-since").bind headerToStr).bind C.parseHttpDate with
    | none => simp
    | some imsTime => cases m.modified <;> simp

end Metadata

/-- The ETag can be sent as it is. -/
theorem visible_etag (m : Metadata) : ∀ c ∈ m.etag, Visible c := by
  have hdigits : ∀ n, ∀ c ∈ Nat.toDigits 10 n, Visible c := fun n c hc =>
    (visible_of_isDigit (Nat.isDigit_of_mem_toDigits (by decide) (by decide) hc)).1
  intro c hc
  simp only [Metadata.etag, List.mem_append, List.mem_cons, List.not_mem_nil, or_false] at hc
  rcases hc with ((rfl | hc) | (rfl | hc)) | rfl
  · decide
  · exact hdigits _ c hc
  · decide
  · exact hdigits _ c hc
  · decide

namespace StaticFileServer

/-- The answer is 304 just when the conditional headers say so. -/
theorem serveFile_answers304_iff (hm : fs.metadata path = some m) :
    Answers304 (serveFile C fs path method reqHeaders) ↔ m.notModified C reqHeaders = true := by
  unfold serveFile
  rw [hm]
  dsimp only
  cases hn : m.notModified C reqHeaders with
  | true =>
    refine iff_of_true ⟨⟨304, [], []⟩, ?_, rfl⟩ rfl
    rw [if_pos rfl, Response.build_of_valid rfl]
    rfl
  | false =>
    -- every other answer is built with the status 200
    have hbuild : ∀ headers body, ¬ Answers304 ((Response.build C 200 headers body).map some) := by
      rintro headers body ⟨resp, hresp, hstatus⟩
      unfold Response.build at hresp
      split at hresp
      · cases hresp
        cases hstatus
      · cases hresp
    refine iff_of_false ?_ Bool.false_ne_true
    rw [if_neg Bool.false_ne_true]
    split
    · exact hbuild _ _
    · split
      · exact fun ⟨_, h, _⟩ => nomatch h
      · split
        · exact fun ⟨_, h, _⟩ => nomatch h
        · exact hbuild _ _

/-- The validators of a file that is sent. -/
theorem serveFile_validators (hm : fs.metadata path = some m)
    (hr : serveFile C fs path .get reqHeaders = .ok (some r)) (hstatus : r.status = 200) :
    r.headers.get "etag" = some (utf8 m.etag) ∧
      ∃ lastModified, m.lastModified C = .ok lastModified ∧
        r.headers.get "last-modified" = some lastModified := by
  have hbuild : ∀ {status headers body}, (Response.build C status headers body).map some = .ok (some r) →
      r.status = status ∧ r.headers = headers := by
    intro status headers body h
    unfold Response.build at h
    split at h
    · cases h
      exact ⟨rfl, rfl⟩
    · cases h
  unfold serveFile at hr
  rw [hm] at hr
  dsimp only at hr
  split at hr
  · have := (hbuild hr).1
    rw [hstatus] at this
    cases this
  · rw [if_neg (by simp)] at hr
    split at hr
    · cases hr
    · split at hr
      · cases hr
      · rename_i lastModified hl
        rw [(hbuild hr).2]
        exact ⟨rfl, lastModified, hl, rfl⟩

/-- A client that was sent the file in its version `m₁` asks again, with the validators
of the answer, when the file is in its version `m₂`. -/
structure Replays (C : Crates) (path : Bytes) (m₁ m₂ : Metadata) (fs₂ : FileSystem) (reqHeaders : HeaderMap) :
    Prop where
  sent : ∃ fs₁ headers r, fs₁.metadata path = some m₁ ∧ serveFile C fs₁ path .get headers = .ok (some r) ∧
    r.status = 200 ∧ reqHeaders.get "if-none-match" = r.headers.get "etag" ∧
    reqHeaders.get "if-modified-since" = r.headers.get "last-modified"
  now : fs₂.metadata path = some m₂

/-- The client asks with the ETag and the date of its version. -/
theorem Replays.asks {m₁ m₂ : Metadata} (h : Replays C path m₁ m₂ fs reqHeaders) (hread : m₁.ReadsBack C) :
    (∃ inm, reqHeaders.get "if-none-match" = some inm ∧ (headerToStr inm).getD [] = m₁.etag) ∧
      ((reqHeaders.get "if-modified-since").bind headerToStr).bind C.parseHttpDate =
        m₁.modified.map fun t => t / 10 ^ 9 * 10 ^ 9 := by
  obtain ⟨fs₁, headers, r, hm, hr, hstatus, hinm, hims⟩ := h.sent
  obtain ⟨hetag, lastModified, hl, hlast⟩ := serveFile_validators hm hr hstatus
  refine ⟨⟨utf8 m₁.etag, hinm.trans hetag, ?_⟩, ?_⟩
  · rw [headerToStr_utf8 (visible_etag m₁), Option.getD_some]
  · rw [hims, hlast, Option.bind_some]
    exact hread lastModified hl

/-- **Changed files.** Where `If-None-Match` does not have the ETag of the file, the answer
is 304 exactly when `If-Modified-Since` has a date that the file is not younger than; for
a client with the validators of another version, when the file is not younger than the
second of that version. -/
theorem changed_not_modified_iff (C : Crates) (path : Bytes) :
    (∀ (fs : FileSystem) (method : Method) (reqHeaders : HeaderMap) (m : Metadata) (inm : Bytes),
        fs.metadata path = some m → reqHeaders.get "if-none-match" = some inm →
        (headerToStr inm).getD [] ≠ m.etag →
        (¬ Answers304 (serveFile C fs path method reqHeaders) ↔ ¬ m.UnmodifiedSince C reqHeaders)) ∧
      ∀ (fs : FileSystem) (method : Method) (reqHeaders : HeaderMap) (m₁ m₂ : Metadata), m₁.ReadsBack C →
        Replays C path m₁ m₂ fs reqHeaders → m₁.etag ≠ m₂.etag →
        (¬ Answers304 (serveFile C fs path method reqHeaders) ↔
          ¬ ∃ t₁ t₂, m₁.modified = some t₁ ∧ m₂.modified = some t₂ ∧ t₂ ≤ t₁ / 10 ^ 9 * 10 ^ 9) := by
  have hchanged : ∀ (fs : FileSystem) (method : Method) (reqHeaders : HeaderMap) (m : Metadata) (inm : Bytes),
      fs.metadata path = some m → reqHeaders.get "if-none-match" = some inm →
      (headerToStr inm).getD [] ≠ m.etag →
      (¬ Answers304 (serveFile C fs path method reqHeaders) ↔ ¬ m.UnmodifiedSince C reqHeaders) := by
    intro fs method reqHeaders m inm hm hinm hne
    rw [serveFile_answers304_iff hm, Metadata.notModified_iff]
    have hno : ¬ ∃ inm, reqHeaders.get "if-none-match" = some inm ∧ (headerToStr inm).getD [] = m.etag := by
      rintro ⟨inm', hinm', he⟩
      rw [hinm] at hinm'
      cases hinm'
      exact hne he
    rw [or_iff_right hno]
  refine ⟨hchanged, fun fs method reqHeaders m₁ m₂ hread hreplay hne => ?_⟩
  obtain ⟨⟨inm, hinm, hetag⟩, hdate⟩ := hreplay.asks hread
  have hother : (headerToStr inm).getD [] ≠ m₂.etag := by rw [hetag]; exact hne
  rw [hchanged fs method reqHeaders m₂ inm hreplay.now hinm hother, Metadata.UnmodifiedSince, hdate]
  refine not_congr ?_
  constructor
  · rintro ⟨imsTime, fileTime, hims, hfile, hle⟩
    obtain ⟨t₁, ht₁, rfl⟩ := Option.map_eq_some_iff.mp hims
    exact ⟨t₁, fileTime, ht₁, hfile, hle⟩
  · rintro ⟨t₁, t₂, ht₁, ht₂, hle⟩
    exact ⟨_, t₂, by rw [ht₁]; rfl, ht₂, hle⟩

end StaticFileServer

/-! ## An example to compute with -/

/-- `Crates.sample`, for the 200th second of 1970. -/
def Crates.dated : Crates :=
  { Crates.sample with
    httpDate := fun _ => .ofString "Thu, 01 Jan 1970 00:03:20 GMT"
    parseHttpDate := fun s => if s = "Thu, 01 Jan 1970 00:03:20 GMT".toList then some (200 * 10 ^ 9) else none
    httpDate_plain := fun _ => by decide }

/-- A file of `len` bytes, modified `ms` milliseconds after the epoch. -/
def Metadata.at (len : UInt64) (ms : Int) : Metadata := ⟨len, false, some (ms * 10 ^ 6)⟩

/-- Every path is the file. -/
def FileSystem.single (m : Metadata) (data : Bytes) : FileSystem :=
  ⟨fun _ => some m, fun _ => some data, fun _ => []⟩

/-- The headers of a client that was sent the five bytes of 200.5 seconds. -/
def replayedHeaders : HeaderMap :=
  [("if-none-match", .ofString "\"5-200\""), ("if-modified-since", .ofString "Thu, 01 Jan 1970 00:03:20 GMT")]

namespace StaticFileServer

theorem replays_headers (m : Metadata) (data path : Bytes) :
    Replays .dated path (.at 5 200500) m (.single m data) replayedHeaders where
  sent := ⟨.single (.at 5 200500) [1, 2, 3, 4, 5], [], _, rfl, rfl, rfl, rfl, rfl⟩
  now := rfl

/-- A file of 300 seconds is sent. -/
theorem changed_not_modified_iff_younger :
    ¬ Answers304
        (serveFile .dated (.single (.at 7 300000) []) [] .head [("if-none-match", .ofString "\"5-200\"")]) ∧
      ¬ Answers304 (serveFile .dated (.single (.at 7 300000) []) [] .get replayedHeaders) := by
  have hread : (Metadata.at 5 200500).ReadsBack .dated := by
    intro lastModified hl
    cases hl
    decide
  constructor
  · exact ((changed_not_modified_iff .dated []).1 _ .head _ (.at 7 300000) (.ofString "\"5-200\"") rfl (by decide)
      (by decide)).mpr fun ⟨_, _, hims, _⟩ => nomatch hims
  · refine ((changed_not_modified_iff .dated []).2 _ .get replayedHeaders (.at 5 200500) (.at 7 300000) hread
      (replays_headers _ [] []) (by decide)).mpr ?_
    rintro ⟨t₁, t₂, ht₁, ht₂, hle⟩
    cases ht₁
    cases ht₂
    exact absurd hle (by decide)

/-- **An older file.** The seven bytes of 100 seconds are taken for the five of 200. -/
theorem older_file_not_modified :
    (¬ ∀ (C : Crates) (fs : FileSystem) (path : Bytes) (method : Method) (reqHeaders : HeaderMap) (m : Metadata)
        (inm : Bytes), fs.metadata path = some m → reqHeaders.get "if-none-match" = some inm →
          (headerToStr inm).getD [] ≠ m.etag → ¬ Answers304 (serveFile C fs path method reqHeaders)) ∧
      ¬ ∀ (C : Crates) (fs : FileSystem) (path : Bytes) (method : Method) (reqHeaders : HeaderMap)
          (m₁ m₂ : Metadata),
        Replays C path m₁ m₂ fs reqHeaders → m₁.etag ≠ m₂.etag →
          ¬ Answers304 (serveFile C fs path method reqHeaders) := by
  have hanswer : Answers304 (serveFile .dated (.single (.at 7 100000) []) [] .get replayedHeaders) :=
    ⟨⟨304, [], []⟩, by rfl, rfl⟩
  constructor
  · intro h
    exact h .dated (.single (.at 7 100000) []) [] .get replayedHeaders (.at 7 100000) (.ofString "\"5-200\"") rfl
      (by decide) (by decide) hanswer
  · intro h
    exact h .dated (.single (.at 7 100000) []) [] .get replayedHeaders (.at 5 200500) (.at 7 100000)
      (replays_headers _ [] []) (by decide) hanswer

end StaticFileServer

end Curf
