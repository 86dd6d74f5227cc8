import Curf.Lib.AsciiCase
import Curf.Security.Waf

/-!
# Letters and the seam

The verdict of the filter on a request does not depend on the case of its ASCII letters,
and no pattern lies across the `?` between path and query: each is judged as if it came
alone.
-/

namespace Curf

open Lib

variable {T : CaseTable} {pats : List Text} {s s' path path' : Text} {query query' userAgent : Option Text}

theorem matchesAny_congr (hpats : pats.all isPlainPattern = true) (h : EqIgnoreAsciiCase s s') :
    matchesAny pats (toLowercase T s) = matchesAny pats (toLowercase T s') := by
  rw [Bool.eq_iff_iff, matchesAny_iff, matchesAny_iff]
  refine exists_congr fun pat => and_congr_right fun hpat => ?_
  exact infix_toLowercase_congr (ascii_of_plain hpats hpat).1 h

theorem matchesAny_target (hpats : pats.all isPlainPattern = true) (path query : Text) :
    matchesAny pats (toLowercase T (target path (some query))) = true ↔
      matchesAny pats (toLowercase T path) = true ∨ matchesAny pats (toLowercase T query) = true := by
  simp only [matchesAny_iff, ← exists_or, ← and_or_left]
  refine exists_congr fun pat => and_congr_right fun hpat => ?_
  obtain ⟨hascii, hmark⟩ := ascii_of_plain hpats hpat
  exact infix_toLowercase_cut hascii (by decide) hmark

theorem target_congr (hpath : EqIgnoreAsciiCase path path')
    (hquery : query.map (·.map Char.toLower) = query'.map (·.map Char.toLower)) :
    EqIgnoreAsciiCase (target path query) (target path' query') := by
  unfold EqIgnoreAsciiCase at hpath ⊢
  cases query with
  | none =>
    cases query' with
    | none => exact hpath
    | some q' => cases hquery
  | some q =>
    cases query' with
    | none => cases hquery
    | some q' =>
      have hq : q.map Char.toLower = q'.map Char.toLower := Option.some.inj hquery
      simp only [target, List.map_append, List.map_cons, hpath, hq]

namespace SecurityChecker

/-- Each of the three families of patterns sees the same in both requests. -/
theorem checkRequest_congr (sc : SecurityChecker) (userAgent : Option Text)
    (h : EqIgnoreAsciiCase (target path query) (target path' query')) :
    sc.checkRequest T path query userAgent = sc.checkRequest T path' query' userAgent := by
  simp only [checkRequest, matchesAny_congr traversalPatterns_plain h, matchesAny_congr sqliPatterns_plain h,
    matchesAny_congr xssPatterns_plain h]

theorem rejects_target {sc : SecurityChecker} (hagent : sc.flags.blockEmptyUserAgent = false) (path query : Text)
    (userAgent : Option Text) : sc.Rejects T path (some query) userAgent ↔
      sc.Rejects T path none userAgent ∨ sc.Rejects T query none userAgent := by
  simp only [rejects_iff, RejectedElsewhere, hagent, Bool.false_eq_true, false_and, false_or,
    matchesAny_target traversalPatterns_plain, matchesAny_target sqliPatterns_plain,
    matchesAny_target xssPatterns_plain, and_or_left]
  simp only [target]
  grind

/-- **The verdict of the filter.** It is the same for requests that differ in the case of
ASCII letters, and without the check for a user agent a request is rejected when its
path or its query alone is. -/
theorem checkRequest_letters_seam (T : CaseTable) (sc : SecurityChecker) (userAgent : Option Text) :
    (∀ (path path' : Text) (query query' : Option Text), EqIgnoreAsciiCase path path' →
        query.map (·.map Char.toLower) = query'.map (·.map Char.toLower) →
        sc.checkRequest T path query userAgent = sc.checkRequest T path' query' userAgent) ∧
      (sc.flags.blockEmptyUserAgent = false → ∀ path query : Text,
        (sc.Rejects T path (some query) userAgent ↔
          sc.Rejects T path none userAgent ∨ sc.Rejects T query none userAgent)) :=
  ⟨fun _ _ _ _ hpath hquery => checkRequest_congr sc userAgent (target_congr hpath hquery),
    fun hagent path query => rejects_target hagent path query userAgent⟩

/-- `/Exec(1)` is as bad as `/eXEC(1)`, and `/a?b` as good as `/a` and `b`. -/
theorem checkRequest_letters_seam_exec :
    (new 8 {}).checkRequest asciiTable "/Exec(1)".toList none none =
        (new 8 {}).checkRequest asciiTable "/eXEC(1)".toList none none ∧
      ((new 8 {}).Rejects asciiTable "/a".toList (some "b".toList) none ↔
        (new 8 {}).Rejects asciiTable "/a".toList none none ∨
          (new 8 {}).Rejects asciiTable "b".toList none none) :=
  ⟨(checkRequest_letters_seam asciiTable (new 8 {}) none).1 _ _ none none (by decide) rfl,
    (checkRequest_letters_seam asciiTable (new 8 {}) none).2 rfl _ _⟩

end SecurityChecker

end Curf
