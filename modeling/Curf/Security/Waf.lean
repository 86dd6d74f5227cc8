import Curf.Lib.Lowercase
import Curf.Security.Checker

/-!
# The request filter

`check_request` looks for patterns of attacks in the lower-cased path and query of
a request, as they came: nothing is decoded. The first check that strikes names
the reason.
-/

namespace Curf

open Lib

/-- The Unicode property White_Space. -/
def isWhiteSpace (c : Char) : Bool :=
  (9 ≤ c.toNat && c.toNat ≤ 13) || c.toNat = 32 || c.toNat = 133 || c.toNat = 160 || c.toNat = 5760 ||
    (8192 ≤ c.toNat && c.toNat ≤ 8202) || c.toNat = 8232 || c.toNat = 8233 || c.toNat = 8239 ||
    c.toNat = 8287 || c.toNat = 12288

def trim (s : Text) : Text := ((s.dropWhile isWhiteSpace).reverse.dropWhile isWhiteSpace).reverse

def traversalPatterns : List Text := ["../".toList, "..\\".toList]

def sqliPatterns : List Text :=
  [" or 1=1".toList, "' or '".toList, "' or 1".toList, "union select".toList, "union all select".toList,
    "select * from".toList, "drop table".toList, "insert into".toList, "delete from".toList, "--".toList,
    "xp_cmdshell".toList, "exec(".toList]

def xssPatterns : List Text :=
  ["<script".toList, "javascript:".toList, "onerror=".toList, "onload=".toList, "onclick=".toList,
    "alert(".toList, "document.cookie".toList, "eval(".toList, "<iframe".toList, "vbscript:".toList]

/-- The pattern is in ASCII and has no `?`. -/
def isPlainPattern (pat : Text) : Bool := pat.all fun d => decide (d.toNat < 128) && d != '?'

/-- Whether one of the patterns occurs in the text. -/
def matchesAny (pats : List Text) (s : Text) : Bool := pats.any (contains · s)

/-- The text that is filtered. -/
def target (path : Text) (query : Option Text) : Text :=
  match query with
  | some q => path ++ '?' :: q
  | none => path

theorem matchesAny_iff {pats : List Text} {s : Text} : matchesAny pats s = true ↔ ∃ pat ∈ pats, pat <:+: s := by
  simp only [matchesAny, List.any_eq_true, contains_iff]

theorem traversalPatterns_plain : traversalPatterns.all isPlainPattern = true := by decide

theorem sqliPatterns_plain : sqliPatterns.all isPlainPattern = true := by decide

theorem xssPatterns_plain : xssPatterns.all isPlainPattern = true := by decide

theorem ascii_of_plain {pats : List Text} (h : pats.all isPlainPattern = true) {pat : Text} (hpat : pat ∈ pats) :
    (∀ d ∈ pat, d.toNat < 128) ∧ '?' ∉ pat := by
  have hall := List.all_eq_true.mp (List.all_eq_true.mp h pat hpat)
  simp only [Bool.and_eq_true, decide_eq_true_eq, bne_iff_ne] at hall
  exact ⟨fun d hd => (hall d hd).1, fun hmem => (hall '?' hmem).2 rfl⟩

namespace SecurityChecker

def checkRequest (T : CaseTable) (sc : SecurityChecker) (path : Text) (query userAgent : Option Text) :
    Except String Unit :=
  if sc.flags.blockEmptyUserAgent && (trim (userAgent.getD [])).isEmpty then .error "No User-Agent"
  else
    let lower := toLowercase T (target path query)
    if sc.flags.wafPathTraversal && matchesAny traversalPatterns lower then
      .error "Path traversal attempt"
    else if sc.flags.wafSqli && matchesAny sqliPatterns lower then
      .error "SQL injection pattern detected"
    else if sc.flags.wafXss && matchesAny xssPatterns lower then .error "XSS pattern detected"
    else .ok ()

/-- The checks for a user agent, SQL injection and XSS. -/
def RejectedElsewhere (T : CaseTable) (sc : SecurityChecker) (path : Text)
    (query userAgent : Option Text) : Prop :=
  (sc.flags.blockEmptyUserAgent = true ∧ (trim (userAgent.getD [])).isEmpty = true) ∨
    (sc.flags.wafSqli = true ∧ matchesAny sqliPatterns (toLowercase T (target path query)) = true) ∨
    (sc.flags.wafXss = true ∧ matchesAny xssPatterns (toLowercase T (target path query)) = true)

variable {T : CaseTable} {sc : SecurityChecker} {path s : Text} {query userAgent : Option Text}

/-- Dots and slashes have no case: they are where the request has them. -/
theorem matchesAny_traversal :
    matchesAny traversalPatterns (toLowercase T s) = true ↔ "../".toList <:+: s ∨ "..\\".toList <:+: s := by
  have h1 : ∀ d ∈ "../".toList, Uncased d := by simp [Uncased]
  have h2 : ∀ d ∈ "..\\".toList, Uncased d := by simp [Uncased]
  simp only [matchesAny, traversalPatterns, List.any_cons, List.any_nil, Bool.or_false, Bool.or_eq_true,
    contains_iff, infix_toLowercase_iff h1, infix_toLowercase_iff h2]

/-- The request is answered with an error. -/
def Rejects (T : CaseTable) (sc : SecurityChecker) (path : Text) (query userAgent : Option Text) : Prop :=
  ∃ reason, sc.checkRequest T path query userAgent = .error reason

theorem checkRequest_ok_iff : sc.checkRequest T path query userAgent = .ok () ↔
    ¬ (sc.flags.wafPathTraversal = true ∧
        ("../".toList <:+: target path query ∨ "..\\".toList <:+: target path query)) ∧
      ¬ sc.RejectedElsewhere T path query userAgent := by
  rw [← matchesAny_traversal (T := T), RejectedElsewhere, not_or, not_or]
  unfold checkRequest
  simp only [← Bool.and_eq_true]
  split
  · simp_all
  · split
    · simp_all
    · split
      · simp_all
      · split <;> simp_all

theorem rejects_iff : sc.Rejects T path query userAgent ↔
    (sc.flags.wafPathTraversal = true ∧ matchesAny traversalPatterns (toLowercase T (target path query)) = true) ∨
      sc.RejectedElsewhere T path query userAgent := by
  have hnot : sc.Rejects T path query userAgent ↔ ¬ sc.checkRequest T path query userAgent = .ok () := by
    unfold Rejects
    cases sc.checkRequest T path query userAgent <;> simp
  rw [hnot, checkRequest_ok_iff, ← matchesAny_traversal (T := T), ← not_or, Classical.not_not]

end SecurityChecker

end Curf
