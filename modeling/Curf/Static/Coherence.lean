import Curf.Lib.Exec
import Curf.Static.Revalidate

/-!
# Files that change while they are served

`serveFile` looks at the metadata of a file, with which it may answer 304, and later
reads the file. In between, and between the requests of a client, the file may be
replaced or removed. A client keeps what it is sent and asks later whether its copy is
current.

`coherent_iff` says for which histories of a file no client is ever told that an old copy
is current, however the requests and the changes interleave, and `coherent_of_later` that
a later second of the modification time for each version is enough.
-/

namespace Curf

open Lib

structure Version where
  metadata : Metadata
  data : Bytes
  deriving DecidableEq, Repr

/-- What a request sees of a file that was there with the metadata `m` and then has the
data `data`. -/
def FileSystem.torn (m : Metadata) (data : Option Bytes) : FileSystem :=
  ⟨fun _ => some m, fun _ => data, fun _ => []⟩

/-- A file with the requests that have looked at its metadata and not yet read it, and
the copies sent so far. -/
structure FileSite where
  file : Option Version
  calls : List (HeaderMap × Metadata)
  copies : List Response

inductive FileEvent where
  /-- The file is replaced, or removed. -/
  | edit (file : Option Version)
  /-- A GET request looks at the metadata. -/
  | get (headers : HeaderMap)
  /-- The request `c` reads the file and is answered. -/
  | read (c : Nat)

def FileEvent.edited : FileEvent → Option (Option Version)
  | .edit file => some file
  | _ => none

/-- The versions that a run brings about. -/
def editsOf (es : List FileEvent) : List (Option Version) := es.filterMap FileEvent.edited

namespace FileSite

def step (C : Crates) (path : Bytes) (s : FileSite) : FileEvent → Option FileSite
  | .edit file => some { s with file }
  | .get headers =>
    match s.file with
    | none => some s
    | some v =>
      -- a copy that is said to be current is not sent
      if v.metadata.notModified C headers then some s
      else some { s with calls := s.calls ++ [(headers, v.metadata)] }
  | .read c =>
    match s.calls[c]? with
    | none => none
    | some (headers, m) =>
      match StaticFileServer.serveFile C (.torn m (s.file.map (·.data))) path .get headers with
      | .error _ => none
      | .ok none => some { s with calls := s.calls.eraseIdx c }
      | .ok (some r) => some { s with calls := s.calls.eraseIdx c, copies := s.copies ++ [r] }

end FileSite

/-- The headers of a client that has the copy `r` and sends its ETag or its date or both. -/
def Response.asks (r : Response) (sendsEtag sendsDate : Bool) : HeaderMap :=
  (if sendsEtag then (r.headers.get "etag").toList.map ("if-none-match", ·) else []) ++
    if sendsDate then (r.headers.get "last-modified").toList.map ("if-modified-since", ·) else []

/-- A client with the validators of `m₁` is told that its copy is current when the file has
the metadata `m₂`. -/
def Confirms (sendsEtag sendsDate : Bool) (m₁ m₂ : Metadata) : Prop :=
  (sendsEtag = true ∧ m₁.etag = m₂.etag) ∨
    (sendsDate = true ∧ ∃ t₁ t₂, m₁.modified = some t₁ ∧ m₂.modified = some t₂ ∧ t₂ ≤ t₁ / 10 ^ 9 * 10 ^ 9)

/-- A file with this metadata can be sent. -/
def Metadata.Dated (m : Metadata) : Prop := ∀ t, m.modified = some t → ¬ Crates.Undated t

/-- The validators tell the versions apart: whenever those of one version confirm a
later one, nothing that was there in between has other data. -/
def Tells (sendsEtag sendsDate : Bool) (history : List (Option Version)) : Prop :=
  ∀ (i j k : Nat) (u v w : Version), i ≤ j → j ≤ k → history[i]? = some (some u) → history[j]? = some (some v) →
    history[k]? = some (some w) → u.metadata.Dated → Confirms sendsEtag sendsDate u.metadata w.metadata →
    v.data = w.data

/-- No client is told that an old copy is current. -/
def FileSite.Coherent (C : Crates) (path : Bytes) (sendsEtag sendsDate : Bool) (s : FileSite) : Prop :=
  ∀ r ∈ s.copies, ∀ v, s.file = some v →
    Answers304 (StaticFileServer.serveFile C (.single v.metadata v.data) path .get (r.asks sendsEtag sendsDate)) →
    r.body = v.data

variable {C : Crates} {path : Bytes} {sendsEtag sendsDate : Bool} {m m₁ m₂ : Metadata} {r : Response}
  {data : Option Bytes} {headers : HeaderMap} {s s' : FileSite} {first : Option Version}
  {edits history : List (Option Version)} {es : List FileEvent} {e : FileEvent}

/-! ## ETags -/

theorem toDigits_inj {a b : Nat} : Nat.toDigits 10 a = Nat.toDigits 10 b ↔ a = b := by
  rw [← Nat.toList_repr, ← Nat.toList_repr, String.toList_inj, Nat.repr_inj]

/-- The ETag has the length and the second of the modification time. -/
theorem etag_eq_iff : m₁.etag = m₂.etag ↔ m₁.len = m₂.len ∧ m₁.mtime = m₂.mtime := by
  have hdash (n : Nat) : '-' ∉ Nat.toDigits 10 n := fun h =>
    absurd (Nat.isDigit_of_mem_toDigits (by decide) (by decide) h) (by decide)
  have hcut (m : Metadata) : m.etag.dropWhile (· ≠ '-') = '-' :: (Nat.toDigits 10 m.mtime ++ ['"']) ∧
      m.etag.takeWhile (· ≠ '-') = '"' :: Nat.toDigits 10 m.len.toNat := by
    have hnot : '-' ∉ '"' :: Nat.toDigits 10 m.len.toNat := by simp [hdash]
    have hsplit : m.etag = ('"' :: Nat.toDigits 10 m.len.toNat) ++ '-' :: (Nat.toDigits 10 m.mtime ++ ['"']) := by
      simp [Metadata.etag]
    rw [hsplit, dropWhile_ne_append hnot, takeWhile_ne_mark hnot, List.dropWhile_cons_of_neg (by simp)]
    exact ⟨rfl, rfl⟩
  constructor
  · intro h
    have hdrop := (hcut m₁).1.symm.trans ((congrArg _ h).trans (hcut m₂).1)
    have htake := (hcut m₁).2.symm.trans ((congrArg _ h).trans (hcut m₂).2)
    have hmtime := List.append_cancel_right (List.cons.inj hdrop).2
    exact ⟨UInt64.toNat_inj.mp (toDigits_inj.mp (List.cons.inj htake).2), toDigits_inj.mp hmtime⟩
  · rintro ⟨hlen, hmtime⟩
    rw [Metadata.etag, Metadata.etag, hlen, hmtime]

/-! ## Copies -/

/-- The copy has the validators of `m`. -/
structure SentFor (C : Crates) (m : Metadata) (r : Response) : Prop where
  etag : r.headers.get "etag" = some (utf8 m.etag)
  date : ∃ lastModified, m.lastModified C = .ok lastModified ∧ r.headers.get "last-modified" = some lastModified

theorem SentFor.dated (h : SentFor C m r) : m.Dated := by
  obtain ⟨lastModified, hl, -⟩ := h.date
  intro t ht hundated
  rw [(StaticFileServer.lastModified_eq_error_iff (C := C) (e := .httpDate) m).mpr ⟨rfl, t, ht, hundated⟩] at hl
  cases hl

/-- What a request is sent that has not been answered by the metadata alone: the data as
they are now with the validators as they were. -/
theorem serveFile_torn (hm : m.notModified C headers = false)
    (hr : StaticFileServer.serveFile C (.torn m data) path .get headers = .ok (some r)) :
    data = some r.body ∧ SentFor C m r := by
  have hbuild : ∀ {hs body}, (Response.build C 200 hs body).map some = .ok (some r) →
      r.status = 200 ∧ r.body = body := by
    intro hs body h
    unfold Response.build at h
    split at h
    · cases h; exact ⟨rfl, rfl⟩
    · cases h
  have hsent : r.status = 200 ∧ data = some r.body := by
    have hr := hr
    unfold StaticFileServer.serveFile FileSystem.torn at hr
    dsimp only at hr
    rw [hm, if_neg Bool.false_ne_true, if_neg (by simp)] at hr
    cases data with
    | none => cases hr
    | some d =>
      dsimp only at hr
      cases hl : m.lastModified C with
      | error e => rw [hl] at hr; cases hr
      | ok lastModified =>
        rw [hl] at hr
        obtain ⟨hstatus, hbody⟩ := hbuild hr
        exact ⟨hstatus, by rw [hbody]⟩
  obtain ⟨hetag, hdate⟩ := StaticFileServer.serveFile_validators rfl hr hsent.1
  exact ⟨hsent.2, hetag, hdate⟩

/-- A dated version is sent. -/
theorem serveFile_torn_dated (C : Crates) (path : Bytes) (hm : m.Dated) (d : Bytes) :
    ∃ r, StaticFileServer.serveFile C (.torn m (some d)) path .get [] = .ok (some r) := by
  have hmeta : (FileSystem.torn m (some d)).metadata path = some m := rfl
  have hdata : (FileSystem.torn m (some d)).read path = some d := rfl
  have hnone : Unconditional [] := ⟨rfl, rfl⟩
  obtain ⟨r, hr, -⟩ := StaticFileServer.serveFile_unconditional (C := C) hmeta hdata (fun t ht => hm t ht) hnone
  exact ⟨r, hr⟩

/-- What a client sends back. -/
theorem asks_get (r : Response) (sendsEtag sendsDate : Bool) :
    (r.asks sendsEtag sendsDate).get "if-none-match" = (if sendsEtag then r.headers.get "etag" else none) ∧
      (r.asks sendsEtag sendsDate).get "if-modified-since" =
        if sendsDate then r.headers.get "last-modified" else none := by
  unfold Response.asks HeaderMap.get
  cases sendsEtag <;> cases sendsDate <;> cases List.lookup "etag" r.headers <;>
    cases List.lookup "last-modified" r.headers <;> exact ⟨rfl, rfl⟩

/-- **Asking for a copy** of one version when another is there. -/
theorem answers304_asks_iff (h : SentFor C m₁ r) (hread : m₁.ReadsBack C) (d : Bytes) :
    Answers304 (StaticFileServer.serveFile C (.single m₂ d) path .get (r.asks sendsEtag sendsDate)) ↔
      Confirms sendsEtag sendsDate m₁ m₂ := by
  obtain ⟨hinm, hims⟩ := asks_get r sendsEtag sendsDate
  obtain ⟨lastModified, hl, hlast⟩ := h.date
  rw [StaticFileServer.serveFile_answers304_iff rfl, Metadata.notModified_iff, Metadata.UnmodifiedSince, hinm, hims,
    h.etag, hlast]
  refine or_congr ?_ ?_
  · cases sendsEtag with
    | false => simp
    | true => simp [headerToStr_utf8 (visible_etag m₁)]
  · cases sendsDate with
    | false => simp
    | true =>
      simp only [if_true, Option.bind_some, hread lastModified hl, true_and]
      constructor
      · rintro ⟨imsTime, fileTime, hims, hfile, hle⟩
        obtain ⟨t₁, ht₁, rfl⟩ := Option.map_eq_some_iff.mp hims
        exact ⟨t₁, fileTime, ht₁, hfile, hle⟩
      · rintro ⟨t₁, t₂, ht₁, ht₂, hle⟩
        exact ⟨_, t₂, by rw [ht₁]; rfl, ht₂, hle⟩

/-! ## Runs -/

/-- The versions so far, the current one last. -/
def historyOf (first : Option Version) (past : List FileEvent) : List (Option Version) := first :: editsOf past

theorem historyOf_snoc (past : List FileEvent) (e : FileEvent) :
    historyOf first (past ++ [e]) = historyOf first past ++ e.edited.toList := by
  cases h : e.edited <;> simp [historyOf, editsOf, List.filterMap_append, h]

/-- A version stays where it is. -/
theorem getElem?_historyOf_snoc {past : List FileEvent} {i : Nat} {x : Option Version}
    (h : (historyOf first past)[i]? = some x) : (historyOf first (past ++ [e]))[i]? = some x := by
  obtain ⟨hlt, -⟩ := List.getElem?_eq_some_iff.mp h
  rw [historyOf_snoc, List.getElem?_append_left hlt, h]

/-- What is known of the requests and the copies: the versions that they come from, in the
order in which they were there. -/
structure FileSite.Traced (C : Crates) (first : Option Version) (past : List FileEvent) (s : FileSite) : Prop where
  file : (historyOf first past)[(editsOf past).length]? = some s.file
  calls : ∀ call ∈ s.calls, call.2.notModified C call.1 = false ∧
    ∃ i u, i ≤ (editsOf past).length ∧ (historyOf first past)[i]? = some (some u) ∧ u.metadata = call.2
  copies : ∀ r ∈ s.copies, ∃ i j u v, i ≤ j ∧ j ≤ (editsOf past).length ∧
    (historyOf first past)[i]? = some (some u) ∧ (historyOf first past)[j]? = some (some v) ∧
    SentFor C u.metadata r ∧ r.body = v.data

namespace FileSite

theorem traced_start : Traced C first [] ⟨first, [], []⟩ :=
  ⟨rfl, fun _ h => absurd h List.not_mem_nil, fun _ h => absurd h List.not_mem_nil⟩

theorem length_editsOf_le (past : List FileEvent) (e : FileEvent) :
    (editsOf past).length ≤ (editsOf (past ++ [e])).length := by
  rw [editsOf, editsOf, List.filterMap_append, List.length_append]
  exact Nat.le_add_right _ _

/-- Requests and copies stay as they are. -/
theorem Traced.keep {past : List FileEvent} (h : Traced C first past s)
    (hfile : (historyOf first (past ++ [e]))[(editsOf (past ++ [e])).length]? = some s'.file)
    (hcalls : ∀ call ∈ s'.calls, call ∈ s.calls) (hcopies : s'.copies = s.copies) :
    Traced C first (past ++ [e]) s' where
  file := hfile
  calls call hcall := by
    obtain ⟨hnot, i, u, hi, hu, hm⟩ := h.calls call (hcalls call hcall)
    exact ⟨hnot, i, u, hi.trans (length_editsOf_le past e), getElem?_historyOf_snoc hu, hm⟩
  copies r hr := by
    obtain ⟨i, j, u, v, hij, hj, hu, hv, hsent, hbody⟩ := h.copies r (hcopies ▸ hr)
    exact ⟨i, j, u, v, hij, hj.trans (length_editsOf_le past e), getElem?_historyOf_snoc hu,
      getElem?_historyOf_snoc hv, hsent, hbody⟩

/-- Without a change the file is the version that it was. -/
theorem Traced.unedited {past : List FileEvent} (h : Traced C first past s) (he : e.edited = none) :
    (historyOf first (past ++ [e]))[(editsOf (past ++ [e])).length]? = some s.file := by
  have hlen : (editsOf (past ++ [e])).length = (editsOf past).length := by
    simp [editsOf, List.filterMap_append, he]
  rw [hlen]
  exact getElem?_historyOf_snoc h.file

theorem Traced.step {past : List FileEvent} (h : Traced C first past s) (hs : step C path s e = some s') :
    Traced C first (past ++ [e]) s' := by
  cases e with
  | edit file =>
    cases hs
    refine h.keep ?_ (fun _ hcall => hcall) rfl
    simp [historyOf, editsOf, List.filterMap_append, FileEvent.edited]
  | get headers =>
    simp only [FileSite.step] at hs
    cases hfile : s.file with
    | none =>
      rw [hfile] at hs
      cases hs
      exact h.keep (h.unedited rfl) (fun _ hcall => hcall) rfl
    | some v =>
      rw [hfile] at hs
      dsimp only at hs
      cases hnot : v.metadata.notModified C headers with
      | true =>
        rw [hnot, if_pos rfl] at hs
        cases hs
        exact h.keep (h.unedited rfl) (fun _ hcall => hcall) rfl
      | false =>
        rw [hnot, if_neg Bool.false_ne_true] at hs
        cases hs
        have hkeep : Traced C first (past ++ [.get headers]) s := h.keep (h.unedited rfl) (fun _ hcall => hcall) rfl
        refine ⟨by rw [hkeep.file, hfile], fun call hcall => ?_, hkeep.copies⟩
        rcases List.mem_append.mp hcall with hcall | hcall
        · exact hkeep.calls call hcall
        · obtain rfl := List.mem_singleton.mp hcall
          exact ⟨hnot, _, v, Nat.le_refl _, by rw [hkeep.file, hfile], rfl⟩
  | read c =>
    simp only [FileSite.step] at hs
    cases hc : s.calls[c]? with
    | none => rw [hc] at hs; cases hs
    | some call =>
      obtain ⟨headers, m⟩ := call
      rw [hc] at hs
      dsimp only at hs
      have herase : ∀ call ∈ s.calls.eraseIdx c, call ∈ s.calls := fun call hcall =>
        (List.eraseIdx_sublist ..).subset hcall
      cases hr : StaticFileServer.serveFile C (.torn m (s.file.map (·.data))) path .get headers with
      | error e => rw [hr] at hs; cases hs
      | ok answer =>
        rw [hr] at hs
        have hkeep : Traced C first (past ++ [.read c]) { s with calls := s.calls.eraseIdx c } :=
          h.keep (h.unedited rfl) herase rfl
        cases answer with
        | none => cases hs; exact hkeep
        | some r =>
          cases hs
          refine ⟨hkeep.file, hkeep.calls, fun r' hr' => ?_⟩
          rcases List.mem_append.mp hr' with hr' | hr'
          · exact hkeep.copies r' hr'
          · obtain rfl := List.mem_singleton.mp hr'
            -- the metadata are of a version that was there before the one that is read
            obtain ⟨hnot, i, u, hi, hu, rfl⟩ := h.calls _ (List.mem_of_getElem? hc)
            obtain ⟨hdata, hsent⟩ := serveFile_torn hnot hr
            obtain ⟨v, hv, hbody⟩ := Option.map_eq_some_iff.mp hdata
            have hlen := length_editsOf_le past (.read c)
            exact ⟨i, _, u, v, hi.trans hlen, Nat.le_refl _, getElem?_historyOf_snoc hu, by rw [hkeep.file, hv],
              hsent, hbody.symm⟩

/-- Without a change in between a request gets the answer of `serveFile`. -/
theorem exec_uninterrupted {v : Version} (hfile : s.file = some v)
    (hr : StaticFileServer.serveFile C (.single v.metadata v.data) path .get headers = .ok (some r))
    (hstatus : r.status = 200) :
    exec (FileSite.step C path) s [.get headers, .read s.calls.length] =
      some { s with copies := s.copies ++ [r] } := by
  have hnot : v.metadata.notModified C headers = false := by
    have hm : (FileSystem.single v.metadata v.data).metadata path = some v.metadata := rfl
    rw [← Bool.not_eq_true, ← StaticFileServer.serveFile_answers304_iff hm]
    rintro ⟨r', hr', hstatus'⟩
    rw [hr] at hr'
    cases hr'
    rw [hstatus] at hstatus'
    cases hstatus'
  have htorn : StaticFileServer.serveFile C (.torn v.metadata (s.file.map (·.data))) path .get headers =
      .ok (some r) := by
    rw [hfile]
    exact hr
  have hget : FileSite.step C path s (.get headers) =
      some { s with calls := s.calls ++ [(headers, v.metadata)] } := by
    simp [FileSite.step, hfile, hnot]
  have hread : FileSite.step C path { s with calls := s.calls ++ [(headers, v.metadata)] } (.read s.calls.length) =
      some { s with copies := s.copies ++ [r] } := by
    simp only [FileSite.step, List.getElem?_concat_length, htorn]
    rw [List.eraseIdx_append_of_length_le (Nat.le_refl _), Nat.sub_self, List.eraseIdx_cons_zero, List.append_nil]
  exact exec_cons.mpr ⟨_, hget, exec_single.mpr hread⟩

/-- A run through some of the changes. -/
theorem exec_edits {fs : List (Option Version)} {f g : Option Version} {n : Nat} (hg : (f :: fs)[n]? = some g)
    (calls : List (HeaderMap × Metadata)) (copies : List Response) :
    exec (FileSite.step C path) ⟨f, calls, copies⟩ ((fs.take n).map .edit) = some ⟨g, calls, copies⟩ := by
  induction n generalizing f fs with
  | zero => cases hg; rfl
  | succ n ih =>
    cases fs with
    | nil => cases hg
    | cons x fs =>
      rw [List.getElem?_cons_succ] at hg
      exact exec_cons.mpr ⟨_, rfl, ih hg⟩

end FileSite

/-- The changes between two positions of the history. -/
def segment (edits : List (Option Version)) (i j : Nat) : List FileEvent := ((edits.drop i).take (j - i)).map .edit

theorem editsOf_edits (fs : List (Option Version)) : editsOf (fs.map .edit) = fs := by
  induction fs with
  | nil => rfl
  | cons f fs ih => exact congrArg (f :: ·) ih

/-- They lead from the one version to the other. -/
theorem exec_segment {i j : Nat} {f g : Option Version} (hij : i ≤ j) (hf : (first :: edits)[i]? = some f)
    (hg : (first :: edits)[j]? = some g) (calls : List (HeaderMap × Metadata)) (copies : List Response) :
    exec (FileSite.step C path) ⟨f, calls, copies⟩ (segment edits i j) = some ⟨g, calls, copies⟩ := by
  refine FileSite.exec_edits ?_ calls copies
  obtain ⟨hlt, hget⟩ := List.getElem?_eq_some_iff.mp hf
  have hdrop : (first :: edits).drop i = f :: edits.drop i := by
    rw [List.drop_eq_getElem_cons hlt, hget, List.drop_succ_cons]
  rw [← hdrop, List.getElem?_drop, Nat.add_sub_cancel' hij, hg]

/-- The run that shows an old copy being confirmed: the version `u` is looked at, `v` is
sent, and the client asks when `w` is there. -/
def showing (edits : List (Option Version)) (i j k : Nat) : List FileEvent :=
  segment edits 0 i ++ .get [] :: segment edits i j ++ .read 0 :: segment edits j k

theorem editsOf_showing {i j k : Nat} (hij : i ≤ j) (hjk : j ≤ k) : editsOf (showing edits i j k) = edits.take k := by
  have hsegment (i j : Nat) : editsOf (segment edits i j) = (edits.drop i).take (j - i) := editsOf_edits _
  have happend (es fs : List FileEvent) : editsOf (es ++ fs) = editsOf es ++ editsOf fs := List.filterMap_append
  have hget (es : List FileEvent) : editsOf (.get [] :: es) = editsOf es := rfl
  have hread (es : List FileEvent) : editsOf (.read 0 :: es) = editsOf es := rfl
  obtain ⟨a, rfl⟩ := Nat.exists_eq_add_of_le hij
  obtain ⟨b, rfl⟩ := Nat.exists_eq_add_of_le hjk
  rw [showing, happend, happend, hget, hread, hsegment, hsegment, hsegment, List.drop_zero, Nat.sub_zero,
    Nat.add_sub_cancel_left, Nat.add_sub_cancel_left, ← List.take_add, ← List.take_add]

theorem exec_showing (C : Crates) (path : Bytes) {i j k : Nat} {u v w : Version} (hij : i ≤ j) (hjk : j ≤ k)
    (hu : (first :: edits)[i]? = some (some u)) (hv : (first :: edits)[j]? = some (some v))
    (hw : (first :: edits)[k]? = some (some w)) (hdated : u.metadata.Dated) :
    ∃ r, SentFor C u.metadata r ∧ r.body = v.data ∧
      exec (FileSite.step C path) ⟨first, [], []⟩ (showing edits i j k) = some ⟨some w, [], [r]⟩ := by
  have hnot : u.metadata.notModified C [] = false := Metadata.notModified_of_unconditional ⟨rfl, rfl⟩
  obtain ⟨r, hr⟩ := serveFile_torn_dated C path hdated v.data
  obtain ⟨hdata, hsent⟩ := serveFile_torn hnot hr
  refine ⟨r, hsent, (Option.some.inj hdata).symm, ?_⟩
  have hget : FileSite.step C path ⟨some u, [], []⟩ (.get []) = some ⟨some u, [([], u.metadata)], []⟩ := by
    simp [FileSite.step, hnot]
  have hread : FileSite.step C path ⟨some v, [([], u.metadata)], []⟩ (.read 0) = some ⟨some v, [], [r]⟩ := by
    simp [FileSite.step, hr]
  rw [showing, List.append_assoc]
  refine exec_append.mpr ⟨_, exec_segment (Nat.zero_le i) rfl hu [] [], exec_cons.mpr ⟨_, hget, ?_⟩⟩
  refine exec_append.mpr ⟨_, exec_segment hij hu hv _ _, exec_cons.mpr ⟨_, hread, ?_⟩⟩
  exact exec_segment hjk hv hw _ _

/-- A copy that is confirmed comes from three versions of the history, which the
validators have to tell apart. -/
theorem coherent_of_tells (hread : ∀ v, some v ∈ first :: edits → v.metadata.ReadsBack C)
    (htells : Tells sendsEtag sendsDate (first :: edits)) (hpart : editsOf es <+: edits)
    (hrun : exec (FileSite.step C path) ⟨first, [], []⟩ es = some s) : s.Coherent C path sendsEtag sendsDate := by
  intro r hr w hw hanswer
  have htraced : FileSite.Traced C first es s :=
    exec_inv_past (fun past _ _ _ h hs => FileSite.Traced.step h hs) FileSite.traced_start hrun
  obtain ⟨i, j, u, v, hij, hj, hu, hv, hsent, hbody⟩ := htraced.copies r hr
  have hin {n : Nat} {x : Option Version} (h : (historyOf first es)[n]? = some x) :
      (first :: edits)[n]? = some x := by
    obtain ⟨rest, hrest⟩ := hpart
    obtain ⟨hlt, -⟩ := List.getElem?_eq_some_iff.mp h
    rw [← hrest, ← List.cons_append, ← h]
    exact List.getElem?_append_left hlt
  have hback := hread u (List.mem_of_getElem? (hin hu))
  rw [hbody]
  refine htells i j _ u v w hij hj (hin hu) (hin hv) ?_ hsent.dated ((answers304_asks_iff hsent hback _).mp hanswer)
  rw [← hw]
  exact hin htraced.file

/-- **Copies stay current.** No client that asks for its copy is told that an old one is
current, however requests and changes interleave, exactly when the validators tell the
versions of the file apart. -/
theorem coherent_iff (C : Crates) (path : Bytes) (sendsEtag sendsDate : Bool) (first : Option Version)
    (edits : List (Option Version)) (hread : ∀ v, some v ∈ first :: edits → v.metadata.ReadsBack C) :
    (∀ es s, editsOf es <+: edits → exec (FileSite.step C path) ⟨first, [], []⟩ es = some s →
        s.Coherent C path sendsEtag sendsDate) ↔
      Tells sendsEtag sendsDate (first :: edits) := by
  constructor
  · intro h i j k u v w hij hjk hu hv hw hdated hconfirms
    obtain ⟨r, hsent, hbody, hrun⟩ := exec_showing C path hij hjk hu hv hw hdated
    have hpart : editsOf (showing edits i j k) <+: edits := by
      rw [editsOf_showing hij hjk]
      exact List.take_prefix k edits
    have hback := hread u (List.mem_of_getElem? hu)
    rw [← hbody]
    exact h _ _ hpart hrun r List.mem_cons_self w rfl ((answers304_asks_iff hsent hback _).mpr hconfirms)
  · intro htells es s hpart hrun
    exact coherent_of_tells hread htells hpart hrun

/-- Five bytes for five others within the second. -/
theorem coherent_iff_same_second :
    ¬ ∀ es s, editsOf es <+: [some ⟨.at 5 200500, [6, 7, 8, 9, 10]⟩] →
      exec (FileSite.step .dated []) ⟨some ⟨.at 5 200000, [1, 2, 3, 4, 5]⟩, [], []⟩ es = some s →
        s.Coherent .dated [] true false := by
  have hread : ∀ v, some v ∈
      [some ⟨.at 5 200000, [1, 2, 3, 4, 5]⟩, some (Version.mk (.at 5 200500) [6, 7, 8, 9, 10])] →
        v.metadata.ReadsBack .dated := by
    intro v hv lastModified hl
    simp only [List.mem_cons, Option.some.injEq, List.not_mem_nil, or_false] at hv
    rcases hv with rfl | rfl <;> cases hl <;> decide
  rw [coherent_iff .dated [] true false _ _ hread]
  intro htells
  have hdated : (Metadata.at 5 200000).Dated := fun t ht => by cases ht; decide
  exact absurd (htells 0 0 1 _ _ _ (by decide) (by decide) rfl rfl rfl hdated (.inl ⟨rfl, by decide⟩)) (by decide)

/-! ## Later versions -/

/-- Each version is modified in a later second than those before it. -/
def EachLater (history : List (Option Version)) : Prop :=
  ∀ (i k : Nat) (u w : Version), i < k → history[i]? = some (some u) → history[k]? = some (some w) →
    ∃ t₁ t₂ : Int, u.metadata.modified = some t₁ ∧ w.metadata.modified = some t₂ ∧ t₁ / 10 ^ 9 < t₂ / 10 ^ 9

theorem mtime_of_nonneg {t : Int} (h : m.modified = some t) (hpos : 0 ≤ t) : m.mtime = (t / 10 ^ 9).toNat := by
  have hnot : ¬ t < 0 := by omega
  rw [Metadata.mtime, h]
  show (if t < 0 then 0 else t.toNat / 10 ^ 9) = _
  rw [if_neg hnot]
  omega

theorem not_confirms_of_later {t₁ t₂ : Int} (h₁ : m₁.modified = some t₁) (h₂ : m₂.modified = some t₂)
    (hlater : t₁ / 10 ^ 9 < t₂ / 10 ^ 9) (hdated : m₁.Dated) : ¬ Confirms sendsEtag sendsDate m₁ m₂ := by
  have hpos : 0 ≤ t₁ := Int.not_lt.mp fun hneg => hdated t₁ h₁ (.inl hneg)
  rintro (⟨-, hetag⟩ | ⟨-, t₁', t₂', h₁', h₂', hle⟩)
  · have hmtime := (etag_eq_iff.mp hetag).2
    rw [mtime_of_nonneg h₁ hpos, mtime_of_nonneg h₂ (by omega)] at hmtime
    omega
  · obtain rfl := Option.some.inj (h₁.symm.trans h₁')
    obtain rfl := Option.some.inj (h₂.symm.trans h₂')
    have hle : t₂ ≤ t₁ / 10 ^ 9 * 10 ^ 9 := hle
    omega

/-- **Later seconds are enough**, whichever validators the clients send. -/
theorem coherent_of_later (C : Crates) (path : Bytes) (sendsEtag sendsDate : Bool) (first : Option Version)
    (edits : List (Option Version)) (hread : ∀ v, some v ∈ first :: edits → v.metadata.ReadsBack C)
    (hlater : EachLater (first :: edits)) (hpart : editsOf es <+: edits)
    (hrun : exec (FileSite.step C path) ⟨first, [], []⟩ es = some s) :
    s.Coherent C path sendsEtag sendsDate := by
  refine coherent_of_tells hread ?_ hpart hrun
  intro i j k u v w hij hjk hu hv hw hdated hconfirms
  rcases Nat.lt_or_eq_of_le (hij.trans hjk) with hlt | rfl
  · obtain ⟨t₁, t₂, h₁, h₂, ht⟩ := hlater i k u w hlt hu hw
    exact absurd hconfirms (not_confirms_of_later h₁ h₂ ht hdated)
  · obtain rfl := Nat.le_antisymm hij hjk
    rw [hv] at hw
    cases hw
    rfl

/-- `Crates.dated`, for the 300th second as well. -/
def Crates.twoDates : Crates :=
  { Crates.dated with
    httpDate := fun n =>
      if n = 300 then .ofString "Thu, 01 Jan 1970 00:05:00 GMT" else .ofString "Thu, 01 Jan 1970 00:03:20 GMT"
    parseHttpDate := fun s =>
      if s = "Thu, 01 Jan 1970 00:05:00 GMT".toList then some (300 * 10 ^ 9)
      else if s = "Thu, 01 Jan 1970 00:03:20 GMT".toList then some (200 * 10 ^ 9)
      else none
    httpDate_plain := fun n => by split <;> decide }

/-- The file is replaced while it is being sent: the copy has the old ETag and the new data. -/
theorem coherent_of_later_torn :
    ∃ s, exec (FileSite.step .twoDates []) ⟨some ⟨.at 5 200500, [1, 2, 3, 4, 5]⟩, [], []⟩
        [.get [], .edit (some ⟨.at 2 300000, [6, 7]⟩), .read 0] = some s ∧
      s.copies.map (·.body) = [[6, 7]] ∧
      s.copies.map (·.headers.get "etag") = [some (.ofString "\"5-200\"")] ∧ s.Coherent .twoDates [] true true := by
  obtain ⟨s, hs⟩ : ∃ s, exec (FileSite.step .twoDates []) ⟨some ⟨.at 5 200500, [1, 2, 3, 4, 5]⟩, [], []⟩
    [.get [], .edit (some ⟨.at 2 300000, [6, 7]⟩), .read 0] = some s := ⟨_, rfl⟩
  have hread : ∀ v, some v ∈ [some ⟨.at 5 200500, [1, 2, 3, 4, 5]⟩, some (Version.mk (.at 2 300000) [6, 7])] →
      v.metadata.ReadsBack .twoDates := by
    intro v hv lastModified hl
    simp only [List.mem_cons, Option.some.injEq, List.not_mem_nil, or_false] at hv
    rcases hv with rfl | rfl <;> cases hl <;> decide
  have hlater : EachLater [some ⟨.at 5 200500, [1, 2, 3, 4, 5]⟩, some (Version.mk (.at 2 300000) [6, 7])] := by
    intro i k u w hik hu hw
    obtain ⟨rfl, rfl⟩ : i = 0 ∧ k = 1 := by
      have := (List.getElem?_eq_some_iff.mp hw).1
      simp only [List.length_cons, List.length_nil] at this
      omega
    cases hu; cases hw
    exact ⟨_, _, rfl, rfl, by decide⟩
  have hcoherent := coherent_of_later .twoDates [] true true _ _ hread hlater (List.prefix_rfl) hs
  exact ⟨s, hs, by cases hs; rfl, by cases hs; rfl, hcoherent⟩

end Curf
