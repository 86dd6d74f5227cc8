import Curf.Static.Validators

/-!
# HEAD and GET

`serve` answers HEAD from the metadata of a file and GET from what it reads. The answers
are built in two places: `head_mirrors_iff` says that they agree only where nothing is
sent.
-/

namespace Curf

/-- Nothing is served in both cases, or the answers have the same status and headers. -/
def SameHead (head get : Except Panic (Option Response)) : Prop :=
  (head = .ok none ∧ get = .ok none) ∨
    ∃ r g, head = .ok (some r) ∧ get = .ok (some g) ∧ r.status = g.status ∧ r.headers = g.headers

/-- Whatever is answered has no body. -/
def Bodiless (answer : Except Panic (Option Response)) : Prop := ∀ r, answer = .ok (some r) → r.body = []

namespace StaticFileServer

/-- A URL path under which the entries of a directory are listed. -/
def Listed (C : Crates) (fs : FileSystem) (sf : StaticFileServer) (urlPath : Bytes) : Prop :=
  ∃ dir m, sf.safePath C.percentDecode urlPath = some dir ∧ fs.metadata dir = some m ∧ m.isDir = true ∧
    sf.indexIn fs dir = none ∧ sf.autoindex = true

/-- The copy of the client is current if a file is served. -/
def CopyCurrent (C : Crates) (fs : FileSystem) (sf : StaticFileServer) (urlPath : Bytes)
    (reqHeaders : HeaderMap) : Prop :=
  ∀ path m, servedFile C fs sf urlPath = some path → fs.metadata path = some m → m.notModified C reqHeaders = true

variable {C : Crates} {fs : FileSystem} {sf : StaticFileServer} {urlPath path dir : Bytes} {reqHeaders : HeaderMap}
  {m : Metadata}

theorem sameHead_self {r : Response} : SameHead (.ok (some r)) (.ok (some r)) := .inr ⟨r, r, rfl, rfl, rfl, rfl⟩

/-- HEAD on a file that is sent. -/
theorem serveFile_head (hm : fs.metadata path = some m) (hn : m.notModified C reqHeaders = false) :
    serveFile C fs path .head reqHeaders = .ok (some ⟨200,
      [("content-type", C.mimeType path), ("content-length", decimal m.len.toNat), ("etag", Lib.utf8 m.etag)], []⟩) := by
  unfold serveFile
  rw [hm]
  dsimp only
  rw [hn, if_neg Bool.false_ne_true, if_pos rfl, Response.build_of_plain]
  · rfl
  · simp [C.mimeType_plain, plain_decimal, plain_etag]

/-- GET on it has two headers more. -/
theorem serveFile_get_headers (hm : fs.metadata path = some m) (hn : m.notModified C reqHeaders = false)
    {g : Response} (hg : serveFile C fs path .get reqHeaders = .ok (some g)) : g.headers.length = 5 := by
  unfold serveFile at hg
  rw [hm] at hg
  dsimp only at hg
  rw [hn, if_neg Bool.false_ne_true, if_neg (by simp)] at hg
  split at hg
  · cases hg
  · split at hg
    · cases hg
    · unfold Response.build at hg
      split at hg
      · cases hg
        rfl
      · cases hg

theorem serveFile_not_modified (hm : fs.metadata path = some m) (hn : m.notModified C reqHeaders = true)
    (method : Method) : serveFile C fs path method reqHeaders = .ok (some ⟨304, [], []⟩) := by
  unfold serveFile
  rw [hm]
  dsimp only
  rw [if_pos hn, Response.build_of_valid rfl]
  rfl

/-- HEAD and GET on a file agree when the copy of the client is current. -/
theorem serveFile_sameHead_iff (hm : fs.metadata path = some m) :
    SameHead (serveFile C fs path .head reqHeaders) (serveFile C fs path .get reqHeaders) ↔
      m.notModified C reqHeaders = true := by
  cases hn : m.notModified C reqHeaders with
  | true =>
    rw [serveFile_not_modified hm hn, serveFile_not_modified hm hn]
    exact iff_of_true sameHead_self rfl
  | false =>
    refine iff_of_false ?_ Bool.false_ne_true
    rw [serveFile_head hm hn]
    rintro (⟨hhead, -⟩ | ⟨r, g, hr, hg, -, hheaders⟩)
    · cases hhead
    · cases hr
      have hlen := serveFile_get_headers hm hn hg
      rw [← hheaders] at hlen
      cases hlen

theorem serveFile_head_bodiless : Bodiless (serveFile C fs path .head reqHeaders) := by
  intro r hr
  cases hm : fs.metadata path with
  | none =>
    unfold serveFile at hr
    rw [hm] at hr
    cases hr
  | some m =>
    cases hn : m.notModified C reqHeaders with
    | true =>
      rw [serveFile_not_modified hm hn] at hr
      cases hr
      rfl
    | false =>
      rw [serveFile_head hm hn] at hr
      cases hr
      rfl

/-- A listing is a page. -/
theorem directoryListing_eq (C : Crates) (fs : FileSystem) (dir urlPath : Bytes) :
    ∃ body, directoryListing C fs dir urlPath =
      .ok ⟨200, [("content-type", .ofString "text/html; charset=utf-8")], body⟩ ∧ body ≠ [] := by
  unfold directoryListing
  rw [Response.build_of_plain (by decide)]
  refine ⟨_, rfl, ?_⟩
  have hdoctype : Bytes.ofString "<!DOCTYPE html><html><head><title>Index of " ≠ [] := by decide
  simp [hdoctype]

/-- What there is under a URL path, and so what GET and HEAD are answered with: nothing, a file
or a listing. -/
inductive Serves (C : Crates) (fs : FileSystem) (sf : StaticFileServer) (urlPath : Bytes) : Prop
  | nothing (hfile : servedFile C fs sf urlPath = none) (hlist : ¬ Listed C fs sf urlPath)
      (hserve : ∀ method reqHeaders, method = .get ∨ method = .head →
        serve C fs sf urlPath method reqHeaders = .ok none)
  | file {path : Bytes} (hfile : servedFile C fs sf urlPath = some path) (hlist : ¬ Listed C fs sf urlPath)
      (hserve : ∀ method reqHeaders, method = .get ∨ method = .head →
        serve C fs sf urlPath method reqHeaders = serveFile C fs path method reqHeaders)
  | listing {dir : Bytes} (hdir : sf.safePath C.percentDecode urlPath = some dir)
      (hfile : servedFile C fs sf urlPath = none) (hlist : Listed C fs sf urlPath)
      (hserve : ∀ method reqHeaders, method = .get ∨ method = .head →
        serve C fs sf urlPath method reqHeaders = (directoryListing C fs dir urlPath).map some)

theorem serves (C : Crates) (fs : FileSystem) (sf : StaticFileServer) (urlPath : Bytes) :
    Serves C fs sf urlPath := by
  have hasked : ∀ method : Method, method = .get ∨ method = .head → ¬ (method ≠ .get ∧ method ≠ .head) := by
    rintro method hmethod ⟨hget, hhead⟩
    exact hmethod.elim hget hhead
  cases hs : sf.safePath C.percentDecode urlPath with
  | none =>
    refine .nothing (by simp [servedFile, hs]) ?_ fun method _ h => by simp [serve, hasked method h, hs]
    rintro ⟨dir, m, hdir, -⟩
    rw [hs] at hdir
    cases hdir
  | some filePath =>
    cases hm : fs.metadata filePath with
    | none =>
      refine .nothing (by simp [servedFile, hs, hm]) ?_ fun method _ h => by simp [serve, hasked method h, hs, hm]
      rintro ⟨dir, m, hdir, hdm, -⟩
      rw [hs] at hdir
      cases hdir
      rw [hm] at hdm
      cases hdm
    | some m =>
      -- what a listing under the path says of the file
      have hlisted : Listed C fs sf urlPath →
          m.isDir = true ∧ sf.indexIn fs filePath = none ∧ sf.autoindex = true := by
        rintro ⟨dir, m', hdir, hm', hrest⟩
        rw [hs] at hdir
        cases hdir
        rw [hm] at hm'
        cases hm'
        exact hrest
      cases hd : m.isDir with
      | false =>
        have hfile : servedFile C fs sf urlPath = some filePath := by simp [servedFile, hs, hm, hd]
        refine .file hfile (fun h => ?_)
          fun method _ h => by simp [serve, hasked method h, hs, hm, hd]
        have := (hlisted h).1
        rw [hd] at this
        cases this
      | true =>
        cases hi : sf.indexIn fs filePath with
        | some candidate =>
          have hfile : servedFile C fs sf urlPath = some candidate := by simp [servedFile, hs, hm, hd, hi]
          refine .file hfile (fun h => ?_)
            fun method _ h => by simp [serve, hasked method h, hs, hm, hd, hi]
          have := (hlisted h).2.1
          rw [hi] at this
          cases this
        | none =>
          cases ha : sf.autoindex with
          | true =>
            exact .listing hs (by simp [servedFile, hs, hm, hd, hi]) ⟨filePath, m, hs, hm, hd, hi, ha⟩
              fun method _ h => by simp [serve, hasked method h, hs, hm, hd, hi, ha]
          | false =>
            refine .nothing (by simp [servedFile, hs, hm, hd, hi]) (fun h => ?_)
              fun method _ h => by simp [serve, hasked method h, hs, hm, hd, hi, ha]
            have := (hlisted h).2.2
            rw [ha] at this
            cases this

/-- What is served is there. -/
theorem exists_of_servedFile (h : servedFile C fs sf urlPath = some path) : ∃ m, fs.metadata path = some m := by
  unfold servedFile at h
  split at h
  · cases h
  · split at h
    · cases h
    · rename_i m hm
      split at h
      · have hexists := List.find?_some h
        exact Option.isSome_iff_exists.mp hexists
      · cases h
        exact ⟨m, hm⟩

theorem copyCurrent_iff (hfile : servedFile C fs sf urlPath = some path) (hm : fs.metadata path = some m) :
    CopyCurrent C fs sf urlPath reqHeaders ↔ m.notModified C reqHeaders = true := by
  constructor
  · exact fun h => h path m hfile hm
  · intro h path' m' hfile' hm'
    rw [hfile] at hfile'
    cases hfile'
    rw [hm] at hm'
    cases hm'
    exact h

theorem copyCurrent_of_none (hfile : servedFile C fs sf urlPath = none) : CopyCurrent C fs sf urlPath reqHeaders := by
  intro path m hpath
  rw [hfile] at hpath
  cases hpath

/-- **Where HEAD mirrors GET.** Both serve nothing or the answers have the same status and
headers exactly when there is no file to send: there is none, or the copy of the client is
current. HEAD leaves the body out except for a listing. -/
theorem head_mirrors_iff (C : Crates) (fs : FileSystem) (sf : StaticFileServer) (urlPath : Bytes)
    (reqHeaders : HeaderMap) :
    (SameHead (serve C fs sf urlPath .head reqHeaders) (serve C fs sf urlPath .get reqHeaders) ↔
        CopyCurrent C fs sf urlPath reqHeaders) ∧
      (SameHead (serve C fs sf urlPath .head reqHeaders) (serve C fs sf urlPath .get reqHeaders) ∧
          Bodiless (serve C fs sf urlPath .head reqHeaders) ↔
        CopyCurrent C fs sf urlPath reqHeaders ∧ ¬ Listed C fs sf urlPath) := by
  cases serves C fs sf urlPath with
  | nothing hfile hlist hserve =>
    have hcurrent := @copyCurrent_of_none C fs sf urlPath reqHeaders hfile
    rw [hserve .head reqHeaders (.inr rfl), hserve .get reqHeaders (.inl rfl)]
    have hsame : SameHead (.ok none) (.ok none) := .inl ⟨rfl, rfl⟩
    exact ⟨iff_of_true hsame hcurrent, iff_of_true ⟨hsame, fun r hr => nomatch hr⟩ ⟨hcurrent, hlist⟩⟩
  | @file path hfile hlist hserve =>
    obtain ⟨m, hm⟩ := exists_of_servedFile hfile
    rw [hserve .head reqHeaders (.inr rfl), hserve .get reqHeaders (.inl rfl), copyCurrent_iff hfile hm]
    have hsame := @serveFile_sameHead_iff C fs path reqHeaders m hm
    exact ⟨hsame, and_congr hsame (iff_of_true serveFile_head_bodiless hlist)⟩
  | @listing dir _ hfile hlist hserve =>
    have hcurrent := @copyCurrent_of_none C fs sf urlPath reqHeaders hfile
    obtain ⟨body, hpage, hbody⟩ := directoryListing_eq C fs dir urlPath
    rw [hserve .head reqHeaders (.inr rfl), hserve .get reqHeaders (.inl rfl), hpage]
    refine ⟨iff_of_true sameHead_self hcurrent, iff_of_false (fun h => ?_) fun h => h.2 hlist⟩
    exact hbody (h.2 _ rfl)

/-- The server of the examples. -/
def sampleServer : StaticFileServer := ⟨.ofString "/srv", [], false⟩

/-- The number of headers of an answer. -/
def headerCount (answer : Except Panic (Option Response)) : Option Nat :=
  answer.toOption.join.map (·.headers.length)

theorem headerCount_eq {head get : Except Panic (Option Response)} (h : SameHead head get) :
    headerCount head = headerCount get := by
  obtain ⟨rfl, rfl⟩ | ⟨r, g, rfl, rfl, -, hheaders⟩ := h
  · rfl
  · show some r.headers.length = some g.headers.length
    rw [hheaders]

/-- **Two headers short.** The answer to HEAD on a file lacks its date, and there is one also
where the file cannot be read. -/
theorem head_differs :
    ¬ (∀ (C : Crates) (fs : FileSystem) (sf : StaticFileServer) (urlPath : Bytes) (reqHeaders : HeaderMap),
        SameHead (serve C fs sf urlPath .head reqHeaders) (serve C fs sf urlPath .get reqHeaders)) ∧
      ¬ SameHead (serve .dated ⟨fun _ => some (.at 5 200000), fun _ => none, fun _ => []⟩ sampleServer [47] .head [])
        (serve .dated ⟨fun _ => some (.at 5 200000), fun _ => none, fun _ => []⟩ sampleServer [47] .get []) := by
  constructor
  · intro h
    have hcount := headerCount_eq (h .dated (.single (.at 5 200000) [1, 2, 3, 4, 5]) sampleServer [47] [])
    exact absurd hcount (by decide)
  · intro h
    exact absurd (headerCount_eq h) (by decide)

end StaticFileServer

end Curf
