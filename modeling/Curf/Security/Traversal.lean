import Curf.Lib.Utf8
import Curf.Security.Waf
import Curf.Security.Written
import Curf.Static.SafePath

/-!
# The filter and the file server

Both guard against `..`: the filter looks for `../` in the request as it came, the
file server for the component in the decoded path. `filterCovers_iff` says on which
requests the filter leaves nothing to the file server.
-/

namespace Curf

open Lib Lib.UnixPath

/-- Whether the loop of `safe_path` comes to its `ParentDir` branch. -/
def reachesParentDir : List (Component UInt8) → Bytes → Bool
  | [], _ => false
  | .normal part :: cs, result => reachesParentDir cs (push result part)
  | .parentDir :: _, _ => true
  | .rootDir :: cs, result | .curDir :: cs, result => reachesParentDir cs result
  | .drivePrefix _ :: _, _ => false

/-- Whether `safe_path` comes to its `ParentDir` branch for a URL path. -/
def StaticFileServer.reachesParentDir (percentDecode : Bytes → Bytes) (sf : StaticFileServer)
    (urlPath : Bytes) : Bool :=
  (percentDecode urlPath).isUtf8 && Curf.reachesParentDir (components (cleanPath percentDecode urlPath)) sf.root

/-- The decoded path, up to the first `?`, is valid and has a component `..`. -/
def HasParentDir (percentDecode : Bytes → Bytes) (urlPath : Bytes) : Prop :=
  (percentDecode urlPath).isUtf8 = true ∧ .parentDir ∈ components (cleanPath percentDecode urlPath)

/-- The request shows `../` or `..\` as it came. -/
def ShowsTraversal (path : Text) (query : Option Text) : Prop :=
  "../".toList <:+: target path query ∨ "..\\".toList <:+: target path query

/-- The path has a segment `..` before any `?` of the decoded path: what is in front of it,
how it is written, and what is behind it. -/
structure DotsAt (path : Text) (pre us post : List Written) : Prop where
  written_eq : written (utf8 path) = pre ++ us ++ post
  dots : us.map Written.value = [46, 46]
  question : 63 ∉ pre.map Written.value
  front : pre.map Written.value = [] ∨ [47] <:+ pre.map Written.value
  back : post.map Written.value = [] ∨ [47] <+: post.map Written.value ∨ [63] <+: post.map Written.value

/-- Some `..` is written with an escape, ends the path, or comes before a `?` or an escaped slash. -/
def LeavesDots (percentDecode : Bytes → Bytes) (path : Text) : Prop :=
  (percentDecode (utf8 path)).isUtf8 = true ∧
    ∃ pre us post, DotsAt path pre us post ∧
      ((∃ u ∈ us, u.isPlain = false) ∨ post.head? ≠ some (.plain 47))

variable {percentDecode : Bytes → Bytes} {sf : StaticFileServer} {urlPath : Bytes} {path : Text}
  {query : Option Text} {cs : List (Component UInt8)} {pre us post : List Written}

theorem reachesParentDir_iff (hdrive : ∀ text, .drivePrefix text ∉ cs) (result : Bytes) :
    reachesParentDir cs result = true ↔ .parentDir ∈ cs := by
  induction cs generalizing result with
  | nil => simp [reachesParentDir]
  | cons c cs ih =>
    have hrest := ih fun text h => hdrive text (List.mem_cons_of_mem _ h)
    cases c with
    | normal part => rw [reachesParentDir, hrest]; simp
    | parentDir => simp [reachesParentDir]
    | rootDir => rw [reachesParentDir, hrest]; simp
    | curDir => rw [reachesParentDir, hrest]; simp
    | drivePrefix text => exact absurd List.mem_cons_self (hdrive text)

theorem StaticFileServer.reachesParentDir_iff :
    sf.reachesParentDir percentDecode urlPath = true ↔ HasParentDir percentDecode urlPath := by
  rw [StaticFileServer.reachesParentDir, Bool.and_eq_true, Curf.reachesParentDir_iff drivePrefix_not_mem_components]
  rfl

theorem infix_target (pat : Text) (h : pat <:+: path) : pat <:+: target path query := by
  refine h.trans ?_
  unfold target
  cases query with
  | none => exact List.infix_rfl
  | some q => exact (List.prefix_append ..).isInfix

/-- A path that is its own decoding shows every `..` that is not its end. -/
theorem hasParentDir_iff_of_plain (hplain : percentDecode (utf8 path) = utf8 path) (hq : '?' ∉ path)
    (hshow : ¬ ShowsTraversal path query) :
    HasParentDir percentDecode (utf8 path) ↔ path = "..".toList ∨ "/..".toList <:+ path := by
  rw [HasParentDir, cleanPath_of_text hplain hq, hplain]
  constructor
  · rintro ⟨-, hmem⟩
    rcases text_of_parentDir_mem hmem with h | h | h
    · have hpath : "../".toList <:+: path :=
        infix_of_utf8_infix (List.cons_ne_nil 46 [46, 47]) (by simp) (by decide) h
      exact absurd (.inl (infix_target _ hpath)) hshow
    · exact .inl (eq_of_utf8_eq (by simp) (by decide) (show utf8 path = [46, 46] from h))
    · exact .inr (suffix_of_utf8_suffix (List.cons_ne_nil 47 [46, 46]) (by simp) (by decide) h)
  · intro h
    refine ⟨ByteArray.validateUTF8_eq_true_iff.mpr ⟨path, rfl⟩, parentDir_mem_of_suffix ?_⟩
    rcases h with rfl | ⟨x, rfl⟩
    · exact .inl rfl
    · exact .inr ⟨utf8 x, by rw [utf8, utf8, List.flatMap_append]; rfl⟩

/-! ## How a `..` is written -/

/-- The decoded path has a `..` where its units spell one. -/
theorem hasParentDir_iff_dotsAt (hd : DecodesAll percentDecode) : HasParentDir percentDecode (utf8 path) ↔
    (percentDecode (utf8 path)).isUtf8 = true ∧ ∃ pre us post, DotsAt path pre us post := by
  refine and_congr_right fun _ => ?_
  rw [parentDir_mem_iff]
  constructor
  · rintro ⟨x, y, hclean, hx, hy⟩
    obtain ⟨z, hz, hquestion, hend⟩ := exists_takeWhile_ne 63 (percentDecode (utf8 path))
    rw [cleanPath] at hclean
    rw [hclean] at hz hquestion
    rw [hd.decode_written, List.append_assoc] at hz
    obtain ⟨pre, rest, hwritten, rfl, hrest⟩ := List.map_eq_append_iff.mp hz
    obtain ⟨us, post, rfl, hus, hpost⟩ := List.map_eq_append_iff.mp (show _ = [46, 46] ++ (y ++ z) from hrest)
    refine ⟨pre, us, post, ?_, hus, fun hmem => hquestion (List.mem_append_left _ hmem), hx, ?_⟩
    · rw [hwritten, List.append_assoc]
    · rw [hpost]
      rcases hy with rfl | ⟨y, rfl⟩
      · rcases hend with rfl | hend
        · exact .inl rfl
        · exact .inr (.inr hend)
      · exact .inr (.inl ⟨y ++ z, rfl⟩)
  · rintro ⟨pre, us, post, h⟩
    obtain ⟨z, hz, hquestion, hend⟩ := exists_takeWhile_ne 63 (post.map Written.value)
    have hdecoded : percentDecode (utf8 path) =
        (pre.map Written.value ++ 46 :: 46 :: (post.map Written.value).takeWhile (· ≠ 63)) ++ z := by
      rw [hd.decode_written, h.written_eq, List.map_append, List.map_append, h.dots, List.append_assoc,
        List.append_assoc]
      exact congrArg (fun tail => _ ++ 46 :: 46 :: tail) hz
    have hclean : cleanPath percentDecode (utf8 path) =
        pre.map Written.value ++ 46 :: 46 :: (post.map Written.value).takeWhile (· ≠ 63) := by
      rw [cleanPath, hdecoded]
      refine takeWhile_ne_cut ?_ hend
      simp only [List.mem_append, List.mem_cons, not_or]
      exact ⟨h.question, by decide, by decide, hquestion⟩
    refine ⟨_, _, hclean, h.front, ?_⟩
    rcases h.back with hpost | ⟨y, hy⟩ | ⟨y, hy⟩
    · rw [hpost]
      exact .inl rfl
    · rw [← hy]
      exact .inr ⟨y.takeWhile (· ≠ 63), rfl⟩
    · rw [← hy]
      exact .inl rfl

/-- A `..` and a slash behind it, both as they are, are seen. -/
theorem DotsAt.infix_path (h : DotsAt path pre us post) (hplain : ∀ u ∈ us, u.isPlain = true)
    (hslash : post.head? = some (.plain 47)) : "../".toList <:+: path := by
  obtain ⟨rest, rfl⟩ := List.head?_eq_some_iff.mp hslash
  have hraw : utf8 path = pre.flatMap Written.raw ++ [46, 46, 47] ++ rest.flatMap Written.raw := by
    rw [← raw_written (utf8 path), h.written_eq, List.flatMap_append, List.flatMap_append, List.flatMap_cons,
      Written.flatMap_raw_of_isPlain hplain, h.dots]
    simp only [List.append_assoc]
    rfl
  exact infix_of_utf8_infix (List.cons_ne_nil 46 [46, 47]) (by simp) (by decide) ⟨_, _, hraw.symm⟩

/-- What the filter does not see of a `..` is how it is written. -/
theorem hasParentDir_iff_leavesDots (hd : DecodesAll percentDecode) (hshow : ¬ ShowsTraversal path query) :
    HasParentDir percentDecode (utf8 path) ↔ LeavesDots percentDecode path := by
  rw [hasParentDir_iff_dotsAt hd]
  constructor
  · rintro ⟨hvalid, pre, us, post, h⟩
    refine ⟨hvalid, pre, us, post, h, ?_⟩
    by_contra hseen
    obtain ⟨hplain, hslash⟩ := not_or.mp hseen
    have hall : ∀ u ∈ us, u.isPlain = true := by
      intro u hu
      by_contra hu'
      exact hplain ⟨u, hu, Bool.not_eq_true _ ▸ hu'⟩
    exact hshow (.inl (infix_target _ (h.infix_path hall (not_not.mp hslash))))
  · rintro ⟨hvalid, pre, us, post, h, -⟩
    exact ⟨hvalid, pre, us, post, h⟩
/-! ## What is left -/

/-- The file server meets no `..` in a request that the filter lets through. -/
def FilterCovers (T : CaseTable) (percentDecode : Bytes → Bytes) (sc : SecurityChecker)
    (sf : StaticFileServer) (path : Text) (query userAgent : Option Text) : Prop :=
  sc.checkRequest T path query userAgent = .ok () → sf.reachesParentDir percentDecode (utf8 path) = false

/-- **What the filter leaves to the file server.** A `..` gets past it if the request
does not show `../` or `..\` as it came and no other check strikes: among the paths
that are their own decoding, those that end with it, and among all of them, those that
write it with an escape, or end with it, or have a `?` or an escaped slash behind it. -/
theorem filterCovers_iff (T : CaseTable) (percentDecode : Bytes → Bytes) (sc : SecurityChecker)
    (sf : StaticFileServer) (path : Text) (query userAgent : Option Text)
    (hflag : sc.flags.wafPathTraversal = true) :
    (FilterCovers T percentDecode sc sf path query userAgent ↔
        ¬ HasParentDir percentDecode (utf8 path) ∨ ShowsTraversal path query ∨
          sc.RejectedElsewhere T path query userAgent) ∧
      (percentDecode (utf8 path) = utf8 path → '?' ∉ path →
        (FilterCovers T percentDecode sc sf path query userAgent ↔
          ¬ (path = "..".toList ∨ "/..".toList <:+ path) ∨ ShowsTraversal path query ∨
            sc.RejectedElsewhere T path query userAgent)) ∧
      (DecodesAll percentDecode →
        (FilterCovers T percentDecode sc sf path query userAgent ↔
          ¬ LeavesDots percentDecode path ∨ ShowsTraversal path query ∨
            sc.RejectedElsewhere T path query userAgent)) := by
  have hgeneral : FilterCovers T percentDecode sc sf path query userAgent ↔
      ¬ HasParentDir percentDecode (utf8 path) ∨ ShowsTraversal path query ∨
        sc.RejectedElsewhere T path query userAgent := by
    rw [FilterCovers, SecurityChecker.checkRequest_ok_iff, ← Bool.not_eq_true,
      StaticFileServer.reachesParentDir_iff, ShowsTraversal]
    simp only [hflag, true_and]
    constructor
    · intro h
      by_cases hshow : "../".toList <:+: target path query ∨ "..\\".toList <:+: target path query
      · exact .inr (.inl hshow)
      · by_cases helse : sc.RejectedElsewhere T path query userAgent
        · exact .inr (.inr helse)
        · exact .inl (h ⟨hshow, helse⟩)
    · rintro (h | h | h) ⟨hshow, helse⟩
      · exact h
      · exact absurd h hshow
      · exact absurd h helse
  refine ⟨hgeneral, fun hplain hq => hgeneral.trans ?_, fun hd => hgeneral.trans ?_⟩
  · by_cases hshow : ShowsTraversal path query
    · simp only [hshow, true_or, or_true]
    · rw [hasParentDir_iff_of_plain hplain hq hshow]
  · by_cases hshow : ShowsTraversal path query
    · simp only [hshow, true_or, or_true]
    · rw [hasParentDir_iff_leavesDots hd hshow]

/-- In `/a..b` there is no `..` to cover. -/
theorem filterCovers_iff_name :
    FilterCovers asciiTable StaticFileServer.decodePercent (.new 8 {}) ⟨"/srv".toUTF8.data.toList, [], false⟩
      "/a..b".toList none none :=
  ((filterCovers_iff asciiTable StaticFileServer.decodePercent (.new 8 {})
    ⟨"/srv".toUTF8.data.toList, [], false⟩ "/a..b".toList none none rfl).2.1 (by decide) (by decide)).mpr
    (.inl (by decide))

/-- `/..` and `/%2e%2e/x` come through to the `ParentDir` branch. -/
theorem filter_passes_parentDir :
    ¬ (∀ (T : CaseTable) (sc : SecurityChecker) (sf : StaticFileServer) (path : Text)
        (query userAgent : Option Text), sc.flags.wafPathTraversal = true →
        FilterCovers T StaticFileServer.decodePercent sc sf path query userAgent) ∧
      ¬ FilterCovers asciiTable StaticFileServer.decodePercent (.new 8 {})
        ⟨"/srv".toUTF8.data.toList, [], false⟩ "/%2e%2e/x".toList none none := by
  constructor
  · intro h
    have hdots : StaticFileServer.reachesParentDir StaticFileServer.decodePercent
        ⟨"/srv".toUTF8.data.toList, [], false⟩ (utf8 "/..".toList) = false :=
      h asciiTable (.new 8 {}) _ _ none none rfl rfl
    exact absurd hdots (by decide)
  · intro h
    exact absurd (h rfl) (by decide)

end Curf
