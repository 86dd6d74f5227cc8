import Curf.Security.Traversal
import Curf.Security.Written

/-!
# Encoded attacks

The filter looks for its patterns in a request as it came, but what it guards decodes
the request first. `seesThrough_iff` says which requests it judges by their meaning: those
that write some pattern without an escape. One with a space or a `<`, which no URI can
show, is never written so.
-/

namespace Curf

open Lib

/-- The patterns of the filters that are on. -/
def enabledPatterns (flags : SecurityFlags) : List Text :=
  (if flags.wafSqli then sqliPatterns else []) ++ if flags.wafXss then xssPatterns else []

/-- What path and query stand for. -/
def decodedTarget (percentDecode : Bytes → Bytes) (path : Text) (query : Option Text) : Bytes :=
  match query with
  | some q => percentDecode (utf8 path) ++ 63 :: percentDecode (plusToSpace (utf8 q))
  | none => percentDecode (utf8 path)

/-- Some text in the bytes shows the pattern, in whatever case. -/
def ShowsIgnoringCase (T : CaseTable) (pat : Text) (bs : Bytes) : Prop :=
  ∃ p, utf8 p <:+: bs ∧ pat <:+: toLowercase T p

/-- The decoded request has a pattern that is looked for. -/
def IsAttack (T : CaseTable) (percentDecode : Bytes → Bytes) (flags : SecurityFlags) (path : Text)
    (query : Option Text) : Prop :=
  ∃ pat ∈ enabledPatterns flags, ShowsIgnoringCase T pat (decodedTarget percentDecode path query)

/-- The filter judges the request by what it stands for. -/
def SecurityChecker.SeesThrough (T : CaseTable) (percentDecode : Bytes → Bytes) (sc : SecurityChecker)
    (path : Text) (query userAgent : Option Text) : Prop :=
  IsAttack T percentDecode sc.flags path query → sc.Rejects T path query userAgent

/-! ## How an attack is written -/

/-- How path and query are written. -/
def writtenTarget (path : Text) (query : Option Text) : List Written :=
  match query with
  | some q => written (utf8 path) ++ .plain 63 :: (written (utf8 q)).map Written.inQuery
  | none => written (utf8 path)

/-- A stretch of the request that stands for one of the patterns. -/
structure WritesAttack (T : CaseTable) (flags : SecurityFlags) (path : Text) (query : Option Text)
    (us : List Written) : Prop where
  stretch : us <:+: writtenTarget path query
  shows : ∃ pat ∈ enabledPatterns flags, Written.Shows T pat us

/-- There is an attack, and wherever it is, an escape or a `+` is in it. -/
def HidesAttack (T : CaseTable) (flags : SecurityFlags) (path : Text) (query : Option Text) : Prop :=
  (∃ us, WritesAttack T flags path query us) ∧
    ∀ us, WritesAttack T flags path query us → ∃ u ∈ us, u.isPlain = false

/-- The digits of an escape and what is behind it read as a pattern. -/
def CutsEscape (T : CaseTable) (flags : SecurityFlags) (path : Text) (query : Option Text) : Prop :=
  ∃ hi lo us, .escape hi lo :: us <:+: writtenTarget path query ∧
    ∃ pat ∈ enabledPatterns flags, Written.ShowsBehind T pat [hi, lo] us

variable {T : CaseTable} {percentDecode : Bytes → Bytes} {sc : SecurityChecker} {flags : SecurityFlags}
  {pat path s : Text} {query userAgent : Option Text} {bs : Bytes} {us : List Written}

theorem enabledPatterns_plain : (sqliPatterns ++ xssPatterns).all
    (fun pat => pat.all fun d => decide (d.toNat < 128) && d != '%' && d != '+') = true := by decide

theorem of_mem_enabledPatterns (h : pat ∈ enabledPatterns flags) :
    (∀ d ∈ pat, d.toNat < 128) ∧ '%' ∉ pat ∧ '+' ∉ pat := by
  have hmem : pat ∈ sqliPatterns ++ xssPatterns := by
    unfold enabledPatterns at h
    rcases List.mem_append.mp h with h | h
    · split at h
      · exact List.mem_append_left _ h
      · cases h
    · split at h
      · exact List.mem_append_right _ h
      · cases h
  have hall := List.all_eq_true.mp (List.all_eq_true.mp enabledPatterns_plain pat hmem)
  simp only [Bool.and_eq_true, decide_eq_true_eq, bne_iff_ne] at hall
  exact ⟨fun d hd => (hall d hd).1.1, fun hd => (hall _ hd).1.2 rfl, fun hd => (hall _ hd).2 rfl⟩

theorem matchesAny_enabled : matchesAny (enabledPatterns flags) s = true ↔
    (flags.wafSqli = true ∧ matchesAny sqliPatterns s = true) ∨
      (flags.wafXss = true ∧ matchesAny xssPatterns s = true) := by
  unfold enabledPatterns matchesAny
  rw [List.any_append, Bool.or_eq_true]
  cases flags.wafSqli <;> cases flags.wafXss <;> simp

theorem raw_writtenTarget (path : Text) (query : Option Text) :
    (writtenTarget path query).flatMap Written.raw = utf8 (target path query) := by
  cases query with
  | none => exact raw_written _
  | some q =>
    have hquery : ((written (utf8 q)).map Written.inQuery).flatMap Written.raw = utf8 q := by
      rw [List.flatMap_map]
      simp only [Written.raw_inQuery]
      exact raw_written _
    rw [writtenTarget, List.flatMap_append, List.flatMap_cons, raw_written, hquery, target]
    simp only [utf8, List.flatMap_append, List.flatMap_cons]
    rfl

theorem decodedTarget_eq (hd : DecodesAll percentDecode) :
    decodedTarget percentDecode path query = (writtenTarget path query).map Written.value := by
  cases query with
  | none => exact hd.decode_written _
  | some q =>
    rw [decodedTarget, hd.decode_written, hd.decode_plusToSpace, writtenTarget, List.map_append, List.map_cons]
    rfl

/-- What a request stands for can be found in how it is written. -/
theorem isAttack_iff (hd : DecodesAll percentDecode) :
    IsAttack T percentDecode flags path query ↔ ∃ us, WritesAttack T flags path query us := by
  rw [IsAttack, decodedTarget_eq hd]
  constructor
  · rintro ⟨pat, hmem, p, hp, hshown⟩
    obtain ⟨us, hus, he⟩ := List.infix_map_iff.mp hp
    exact ⟨us, hus, pat, hmem, p, he, hshown⟩
  · rintro ⟨us, hus, pat, hmem, p, he, hshown⟩
    exact ⟨pat, hmem, p, List.infix_map_iff.mpr ⟨us, hus, he⟩, hshown⟩

/-- The filter sees what is written without escapes, and what the digits of one seem to begin. -/
theorem matchesAny_written : matchesAny (enabledPatterns flags) (toLowercase T (target path query)) = true ↔
    (∃ us, WritesAttack T flags path query us ∧ ∀ u ∈ us, u.isPlain = true) ∨ CutsEscape T flags path query := by
  rw [matchesAny_iff]
  constructor
  · rintro ⟨pat, hmem, h⟩
    obtain ⟨hascii, hpercent, hplus⟩ := of_mem_enabledPatterns hmem
    rcases (infix_toLowercase_raw hascii hpercent hplus (raw_writtenTarget path query)).mp h with
      ⟨us, hus, hplain, p, hp, hshown⟩ | ⟨hi, lo, us, hus, hshown⟩
    · exact .inl ⟨us, ⟨hus, pat, hmem, p, hp, hshown⟩, hplain⟩
    · exact .inr ⟨hi, lo, us, hus, pat, hmem, hshown⟩
  · intro h
    have hraw : ∃ pat ∈ enabledPatterns flags, Written.ShownRaw T pat (writtenTarget path query) := by
      rcases h with ⟨us, ⟨hus, pat, hmem, p, hp, hshown⟩, hplain⟩ | ⟨hi, lo, us, hus, pat, hmem, hshown⟩
      · exact ⟨pat, hmem, .inl ⟨us, hus, hplain, p, hp, hshown⟩⟩
      · exact ⟨pat, hmem, .inr ⟨hi, lo, us, hus, hshown⟩⟩
    obtain ⟨pat, hmem, h⟩ := hraw
    obtain ⟨hascii, hpercent, hplus⟩ := of_mem_enabledPatterns hmem
    exact ⟨pat, hmem, (infix_toLowercase_raw hascii hpercent hplus (raw_writtenTarget path query)).mpr h⟩

theorem byte_not_mem_utf8 {c : Char} {b : UInt8} (hb : b.toNat < 128) (hc : c.toNat = b.toNat) (h : c ∉ s) :
    b ∉ utf8 s := by
  intro hmem
  obtain ⟨d, hd, he⟩ := mem_of_mem_utf8 hmem hb
  have hcd : d = c := Char.toNat_inj.mp (he.trans hc.symm)
  exact h (hcd ▸ hd)

/-- Without `%`, and without `+` in the query, nothing is written otherwise. -/
theorem isPlain_of_mem_writtenTarget (hpercent : '%' ∉ target path query) (hplus : '+' ∉ query.getD []) :
    ∀ u ∈ writtenTarget path query, u.isPlain = true := by
  cases query with
  | none => exact isPlain_of_mem_written (byte_not_mem_utf8 (c := '%') (by decide) rfl hpercent)
  | some q =>
    simp only [target, List.mem_append, List.mem_cons, not_or] at hpercent
    have hpath : 37 ∉ utf8 path := byte_not_mem_utf8 (c := '%') (by decide) rfl hpercent.1
    have hquery : 37 ∉ utf8 q := byte_not_mem_utf8 (c := '%') (by decide) rfl hpercent.2.2
    have hspace : 43 ∉ utf8 q := byte_not_mem_utf8 (c := '+') (by decide) rfl hplus
    intro u hu
    rcases List.mem_append.mp hu with hu | hu
    · exact isPlain_of_mem_written hpath u hu
    · rcases List.mem_cons.mp hu with rfl | hu
      · rfl
      · exact isPlain_of_mem_written_inQuery hquery hspace u hu

/-- A character without case in a pattern is in the request where the pattern is without escapes. -/
theorem exists_not_isPlain {d : Char} (hd : Uncased d) (hmem : d ∈ pat) (htarget : d ∉ target path query)
    (hus : us <:+: writtenTarget path query) (h : Written.Shows T pat us) : ∃ u ∈ us, u.isPlain = false := by
  by_contra hnone
  have hplain : ∀ u ∈ us, u.isPlain = true := fun u hu => Bool.not_eq_false _ ▸ fun hf => hnone ⟨u, hu, hf⟩
  obtain ⟨p, hp, hshown⟩ := h
  have hraw : utf8 p <:+: utf8 (target path query) := by
    rw [hp, ← Written.flatMap_raw_of_isPlain hplain, ← raw_writtenTarget]
    exact hus.flatMap _
  have hone : [d] <:+: toLowercase T p := ((List.singleton_infix_iff _ _).mpr hmem).trans hshown
  rw [infix_toLowercase_iff (by simpa using hd)] at hone
  exact htarget ((infix_of_utf8_infix_utf8 hraw).subset (hone.subset List.mem_cons_self))

namespace SecurityChecker

theorem rejectedElsewhere_iff : sc.RejectedElsewhere T path query userAgent ↔
    (sc.flags.blockEmptyUserAgent = true ∧ (trim (userAgent.getD [])).isEmpty = true) ∨
      matchesAny (enabledPatterns sc.flags) (toLowercase T (target path query)) = true := by
  rw [RejectedElsewhere, matchesAny_enabled]

/-- An attack is hidden unless it is written without escapes somewhere. -/
theorem not_hidesAttack_iff : ¬ HidesAttack T flags path query ↔
    (¬ ∃ us, WritesAttack T flags path query us) ∨
      ∃ us, WritesAttack T flags path query us ∧ ∀ u ∈ us, u.isPlain = true := by
  rw [HidesAttack, not_and_or, not_forall]
  simp only [not_forall, not_exists, not_and, Bool.not_eq_false, exists_prop]

/-- **What the filter sees through.** A request that hides an attack behind escapes, or
behind a `+`, is stopped only by chance, when the digits of an escape begin a pattern of
their own, or by another check. Each pattern with a space or a `<` is so hidden wherever
it is. Without `%`, and without `+` in the query, nothing is. -/
theorem seesThrough_iff (hd : DecodesAll percentDecode) (T : CaseTable) (sc : SecurityChecker) (path : Text)
    (query userAgent : Option Text) :
    (sc.SeesThrough T percentDecode path query userAgent ↔
        ¬ HidesAttack T sc.flags path query ∨ CutsEscape T sc.flags path query ∨
          (sc.flags.wafPathTraversal = true ∧ ShowsTraversal path query) ∨
          (sc.flags.blockEmptyUserAgent = true ∧ (trim (userAgent.getD [])).isEmpty = true)) ∧
      (' ' ∉ target path query → '<' ∉ target path query → ∀ pat : Text, ' ' ∈ pat ∨ '<' ∈ pat →
        ∀ us, us <:+: writtenTarget path query → Written.Shows T pat us → ∃ u ∈ us, u.isPlain = false) ∧
      ('%' ∉ target path query → '+' ∉ query.getD [] → ¬ HidesAttack T sc.flags path query) := by
  refine ⟨?_, ?_, ?_⟩
  · have hor : ∀ a b c d e : Prop, a ∨ b ∨ c ∨ d ∨ e ↔ (a ∨ d) ∨ e ∨ b ∨ c := by tauto
    rw [SeesThrough, imp_iff_not_or, isAttack_iff hd, rejects_iff, rejectedElsewhere_iff, matchesAny_written,
      matchesAny_traversal, not_hidesAttack_iff, ShowsTraversal]
    exact hor _ _ _ _ _
  · rintro hspace hangle pat (hmem | hmem) us hus h
    · exact exists_not_isPlain (by decide) hmem hspace hus h
    · exact exists_not_isPlain (by decide) hmem hangle hus h
  · rintro hpercent hplus ⟨⟨us, hus⟩, hall⟩
    obtain ⟨u, hu, hplain⟩ := hall us hus
    rw [isPlain_of_mem_writtenTarget hpercent hplus u (hus.stretch.subset hu)] at hplain
    cases hplain

/-- `/Eval(1)?%20OR%201=1` shows enough. -/
theorem seesThrough_eval : (new 8 {}).SeesThrough asciiTable StaticFileServer.decodePercent "/Eval(1)".toList
    (some "%20OR%201=1".toList) none := by
  refine (seesThrough_iff decodesAll_decodePercent asciiTable (new 8 {}) "/Eval(1)".toList
    (some "%20OR%201=1".toList) none).1.mpr (.inl ?_)
  rintro ⟨-, hall⟩
  obtain ⟨u, hu, hplain⟩ := hall ((utf8 "Eval(".toList).map Written.plain)
    ⟨by decide, "eval(".toList, by decide, "Eval(".toList, by decide, by decide⟩
  obtain ⟨b, -, rfl⟩ := List.mem_map.mp hu
  cases hplain

/-- **An encoded attack.** `/%3Cscript` gets through. -/
theorem encoded_script_passes :
    ¬ ∀ (T : CaseTable) (sc : SecurityChecker) (path : Text) (query userAgent : Option Text),
      ' ' ∉ target path query → '<' ∉ target path query →
        sc.SeesThrough T StaticFileServer.decodePercent path query userAgent := by
  intro h
  have hattack : IsAttack asciiTable StaticFileServer.decodePercent {} "/%3Cscript".toList none :=
    ⟨"<script".toList, by decide, "<script".toList, by decide, by decide⟩
  obtain ⟨reason, hr⟩ := h asciiTable (new 8 {}) "/%3Cscript".toList none none (by decide) (by decide) hattack
  have hpass : (new 8 {}).checkRequest asciiTable "/%3Cscript".toList none none = .ok () := by rfl
  rw [hpass] at hr
  cases hr

end SecurityChecker

end Curf
