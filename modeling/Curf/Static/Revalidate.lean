import Curf.Static.Validators

/-!
# Asking again for an unchanged file

`Last-Modified` has the second of the modification time, and `If-Modified-Since` is
compared with the time itself: a client that sends the date back alone is sent the file
again unless it was modified at a whole second. `revalidated_iff` says so for every file.
-/

namespace Curf

open Lib

/-- The headers ask for the file in any case. -/
def Unconditional (reqHeaders : HeaderMap) : Prop :=
  reqHeaders.get "if-none-match" = none ∧ reqHeaders.get "if-modified-since" = none

variable {C : Crates} {fs : FileSystem} {path data : Bytes} {method : Method} {reqHeaders : HeaderMap}
  {m : Metadata} {t : SystemTime} {sendsEtag sendsDate : Bool}

theorem Metadata.notModified_of_unconditional (h : Unconditional reqHeaders) : m.notModified C reqHeaders = false := by
  unfold Metadata.notModified
  rw [h.1, h.2]
  rfl

namespace StaticFileServer

/-- **A file is sent** to a client that asks for it in any case. -/
theorem serveFile_unconditional (hm : fs.metadata path = some m) (hdata : fs.read path = some data)
    (hdated : ∀ t ∈ m.modified, ¬ Crates.Undated t) (h : Unconditional reqHeaders) :
    ∃ r, serveFile C fs path .get reqHeaders = .ok (some r) ∧ r.status = 200 ∧ r.body = data := by
  have hnot : serveFile C fs path .get reqHeaders ≠ .error .httpDate := by
    rw [Ne, serveFile_eq_error_iff]
    rintro ⟨-, -, m', hm', -, -, t, ht, hundated⟩
    rw [hm] at hm'
    cases hm'
    exact hdated t ht hundated
  unfold serveFile at hnot ⊢
  rw [hm] at hnot ⊢
  dsimp only at hnot ⊢
  rw [Metadata.notModified_of_unconditional h, if_neg Bool.false_ne_true, if_neg (by simp), hdata] at hnot ⊢
  cases hl : m.lastModified C with
  | error e =>
    rw [hl] at hnot
    obtain ⟨rfl, -⟩ := (lastModified_eq_error_iff m).mp hl
    exact absurd rfl hnot
  | ok lastModified =>
    have hcache : (Bytes.ofString "public, max-age=3600").plain = true := by decide
    dsimp only
    rw [Response.build_of_valid (by
      simp [validValue_of_plain, C.mimeType_plain, plain_decimal, plain_etag, lastModified_valid hl, hcache])]
    exact ⟨_, rfl, rfl, rfl⟩

/-- A client that was sent the file asks again for it, with the ETag of the answer or its date
or with both, and the file has not changed. -/
structure Revalidates (C : Crates) (path : Bytes) (m : Metadata) (fs : FileSystem) (reqHeaders : HeaderMap)
    (sendsEtag sendsDate : Bool) : Prop where
  sent : ∃ fs₁ headers r, fs₁.metadata path = some m ∧ Unconditional headers ∧
    serveFile C fs₁ path .get headers = .ok (some r) ∧ r.status = 200 ∧
    reqHeaders.get "if-none-match" = (if sendsEtag then r.headers.get "etag" else none) ∧
    reqHeaders.get "if-modified-since" = (if sendsDate then r.headers.get "last-modified" else none)
  unchanged : fs.metadata path = some m
  sends : sendsEtag = true ∨ sendsDate = true

/-- The ETag is sent or not, and so is the date. -/
theorem Revalidates.asks (h : Revalidates C path m fs reqHeaders sendsEtag sendsDate) (hread : m.ReadsBack C) :
    ((∃ inm, reqHeaders.get "if-none-match" = some inm ∧ (headerToStr inm).getD [] = m.etag) ↔
        sendsEtag = true) ∧
      ((reqHeaders.get "if-modified-since").bind headerToStr).bind C.parseHttpDate =
        if sendsDate then m.modified.map fun t => t / 10 ^ 9 * 10 ^ 9 else none := by
  obtain ⟨fs₁, headers, r, hm, -, hr, hstatus, hinm, hims⟩ := h.sent
  obtain ⟨hetag, lastModified, hl, hlast⟩ := serveFile_validators hm hr hstatus
  constructor
  · rw [hinm, hetag]
    cases sendsEtag with
    | false => exact iff_of_false (fun ⟨_, hnone, _⟩ => nomatch hnone) Bool.false_ne_true
    | true =>
      refine iff_of_true ⟨_, rfl, ?_⟩ rfl
      rw [headerToStr_utf8 (visible_etag m), Option.getD_some]
  · rw [hims, hlast]
    cases sendsDate with
    | false => rfl
    | true => exact hread lastModified hl

/-- A time is not after its second when it is a whole second. -/
theorem le_second_iff (t : Int) : t ≤ t / 10 ^ 9 * 10 ^ 9 ↔ t % 10 ^ 9 = 0 := by
  have hsplit : t / 10 ^ 9 * 10 ^ 9 + t % 10 ^ 9 = t := Int.ediv_mul_add_emod t (10 ^ 9)
  have hnonneg : 0 ≤ t % 10 ^ 9 := Int.emod_nonneg t (by decide)
  constructor
  · intro hle
    linarith
  · intro hzero
    linarith

/-- **When an unchanged file is not sent again.** A file that can be read is sent to a client
that asks for it in any case; the client's copy is found to be current exactly when the client
sends the ETag, or when the file was modified at a whole second. -/
theorem revalidated_iff (C : Crates) (path : Bytes) (m : Metadata) (hmodified : m.modified = some t)
    (hdated : ¬ Crates.Undated t) (hread : m.ReadsBack C) :
    (∀ fs data headers, fs.metadata path = some m → fs.read path = some data → Unconditional headers →
        ∃ r, serveFile C fs path .get headers = .ok (some r) ∧ r.status = 200) ∧
      ∀ fs reqHeaders sendsEtag sendsDate, Revalidates C path m fs reqHeaders sendsEtag sendsDate →
        (Answers304 (serveFile C fs path .get reqHeaders) ↔ sendsEtag = true ∨ t % 10 ^ 9 = 0) := by
  constructor
  · intro fs data headers hm hdata hheaders
    have hdated' : ∀ t' ∈ m.modified, ¬ Crates.Undated t' := by
      intro t' ht'
      rw [hmodified] at ht'
      cases ht'
      exact hdated
    obtain ⟨r, hr, hstatus, -⟩ := serveFile_unconditional (C := C) hm hdata hdated' hheaders
    exact ⟨r, hr, hstatus⟩
  · intro fs reqHeaders sendsEtag sendsDate h
    obtain ⟨hetag, hdate⟩ := h.asks hread
    rw [serveFile_answers304_iff h.unchanged, Metadata.notModified_iff, hetag]
    cases hetag' : sendsEtag with
    | true => exact iff_of_true (.inl rfl) (.inl rfl)
    | false =>
      have hsends : sendsDate = true := h.sends.resolve_left (by rw [hetag']; exact Bool.false_ne_true)
      refine or_congr_right ?_
      rw [Metadata.UnmodifiedSince, hdate, hsends, hmodified, if_pos rfl, Option.map_some]
      rw [← le_second_iff t]
      constructor
      · rintro ⟨imsTime, fileTime, hims, hfile, hle⟩
        cases hims
        cases hfile
        exact hle
      · exact fun hle => ⟨_, _, rfl, rfl, hle⟩

/-- The headers of a client that sends the date of the second 200 back. -/
def dateHeaders : HeaderMap := [("if-modified-since", .ofString "Thu, 01 Jan 1970 00:03:20 GMT")]

/-- A file of 200 seconds and one of 200.5 seconds, and what a client sends back. -/
theorem revalidates_date (ms : Int) (hms : ms = 200000 ∨ ms = 200500) :
    Revalidates .dated [] (.at 5 ms) (.single (.at 5 ms) []) dateHeaders false true where
  sent := by
    rcases hms with rfl | rfl
    · exact ⟨.single (.at 5 200000) [], [], _, rfl, ⟨rfl, rfl⟩, rfl, rfl, rfl, rfl⟩
    · exact ⟨.single (.at 5 200500) [], [], _, rfl, ⟨rfl, rfl⟩, rfl, rfl, rfl, rfl⟩
  unchanged := rfl
  sends := .inr rfl

/-- At a whole second the date is enough. -/
theorem revalidated_iff_whole_second :
    Answers304 (serveFile .dated (.single (.at 5 200000) []) [] .get dateHeaders) := by
  have hread : (Metadata.at 5 200000).ReadsBack .dated := by
    intro lastModified hl
    cases hl
    decide
  exact ((revalidated_iff .dated [] (.at 5 200000) rfl (by decide) hread).2 _ _ _ _
    (revalidates_date 200000 (.inl rfl))).mpr (.inr (by decide))

/-- **Half a second.** A file of 200.5 seconds is sent again. -/
theorem half_second_sent_again :
    ¬ ∀ (C : Crates) (path : Bytes) (m : Metadata) (t : SystemTime), m.modified = some t → ¬ Crates.Undated t →
      m.ReadsBack C → ∀ fs reqHeaders sendsEtag sendsDate,
        Revalidates C path m fs reqHeaders sendsEtag sendsDate →
          Answers304 (serveFile C fs path .get reqHeaders) := by
  intro h
  have hread : (Metadata.at 5 200500).ReadsBack .dated := by
    intro lastModified hl
    cases hl
    decide
  obtain ⟨resp, hresp, hstatus⟩ := h .dated [] (.at 5 200500) _ rfl (by decide) hread _ _ _ _
    (revalidates_date 200500 (.inr rfl))
  have hsent : ∃ resp', serveFile .dated (.single (.at 5 200500) []) [] .get dateHeaders = .ok (some resp') ∧
      resp'.status = 200 := ⟨_, rfl, rfl⟩
  obtain ⟨resp', hresp', hstatus'⟩ := hsent
  rw [hresp'] at hresp
  cases hresp
  rw [hstatus'] at hstatus
  cases hstatus

end StaticFileServer

end Curf
