import Mathlib
import Curf.Lib.Lowercase

/-!
# The case of ASCII letters

For ASCII patterns the sigmas of a text make no difference, so that lower-casing goes
character by character (`infix_toLowercase_iff_alone`). It does not see the case of ASCII
letters, and a character without case cuts it (`infix_toLowercase_congr`,
`infix_toLowercase_cut`).
-/

namespace Lib

/-- Equality up to the case of ASCII letters. -/
def EqIgnoreAsciiCase (s t : Text) : Prop := s.map Char.toLower = t.map Char.toLower

instance (s t : Text) : Decidable (EqIgnoreAsciiCase s t) := inferInstanceAs (Decidable (_ = _))

theorem eqIgnoreAsciiCase_lower (s : Text) : EqIgnoreAsciiCase (s.map Char.toLower) s := by
  rw [EqIgnoreAsciiCase, List.map_map]
  exact List.map_congr_left fun c _ => Char.toLower_toLower_eq_toLower c

theorem EqIgnoreAsciiCase.length_eq {s t : Text} (h : EqIgnoreAsciiCase s t) : s.length = t.length := by
  have := congrArg List.length h
  rwa [List.length_map, List.length_map] at this

variable {T : CaseTable} {before after s t pat x y : Text} {c d : Char}

/-! ## Sigmas -/

/-- The lower case of a character that no text is around. -/
def lowerAlone (T : CaseTable) (c : Char) : List Char := if c = 'Σ' then ['σ'] else T.lower c

/-- A final sigma as a medial one. -/
def medialSigma (c : Char) : Char := if c = 'ς' then 'σ' else c

theorem map_medialSigma_lowerAt :
    (lowerAt T before c after).map medialSigma = (lowerAlone T c).map medialSigma := by
  unfold lowerAt lowerAlone
  split
  · split <;> rfl
  · rfl

theorem map_medialSigma_toLowercaseFrom (before s : Text) :
    (toLowercaseFrom T before s).map medialSigma = (s.flatMap (lowerAlone T)).map medialSigma := by
  induction s generalizing before with
  | nil => rfl
  | cons c s ih =>
    rw [toLowercaseFrom, List.map_append, map_medialSigma_lowerAt, ih, List.flatMap_cons, List.map_append]

/-- No sigma is made an ASCII character. -/
theorem medialSigma_of_ascii (h : (medialSigma c).toNat < 128) : medialSigma c = c := by
  unfold medialSigma at h ⊢
  split
  · rename_i hs
    rw [if_pos hs] at h
    exact absurd h (by decide)
  · rfl

theorem infix_map_medialSigma_iff (hpat : ∀ d ∈ pat, d.toNat < 128) :
    pat <:+: s.map medialSigma ↔ pat <:+: s := by
  constructor
  · rintro ⟨x, y, hxy⟩
    obtain ⟨l, y', rfl, hl, -⟩ := List.map_eq_append_iff.mp hxy.symm
    obtain ⟨x', p, rfl, -, hp⟩ := List.map_eq_append_iff.mp hl
    have hself : p.map medialSigma = p := by
      refine (List.map_congr_left fun c hc => medialSigma_of_ascii (hpat _ ?_)).trans (List.map_id p)
      rw [← hp]
      exact List.mem_map_of_mem hc
    exact ⟨x', y', by rw [← hp, hself]⟩
  · intro h
    have hself : pat.map medialSigma = pat := by
      refine (List.map_congr_left fun d hd => if_neg ?_).trans (List.map_id pat)
      rintro rfl
      exact absurd (hpat _ hd) (by decide)
    rw [← hself]
    exact h.map medialSigma

/-- An ASCII pattern is found as if every character were lower-cased by itself. -/
theorem infix_toLowercase_iff_alone (hpat : ∀ d ∈ pat, d.toNat < 128) :
    pat <:+: toLowercase T s ↔ pat <:+: s.flatMap (lowerAlone T) := by
  rw [← infix_map_medialSigma_iff hpat, toLowercase, map_medialSigma_toLowercaseFrom,
    infix_map_medialSigma_iff hpat]

theorem lowerAlone_ascii (h : c.toNat < 128) : lowerAlone T c = [c.toLower] := by
  have hsigma : c ≠ 'Σ' := by
    rintro rfl
    exact absurd h (by decide)
  rw [lowerAlone, if_neg hsigma, T.lower_ascii c h]

/-! ## Letters -/

theorem isAlpha_iff_toNat :
    c.isAlpha = true ↔ (65 ≤ c.toNat ∧ c.toNat ≤ 90) ∨ (97 ≤ c.toNat ∧ c.toNat ≤ 122) := by
  simp [Char.isAlpha, Char.isUpper, Char.isLower, UInt32.le_iff_toNat_le]

theorem toNat_lt_of_isAlpha (h : c.isAlpha = true) : c.toNat < 128 := by
  have hrange := isAlpha_iff_toNat.mp h
  omega

theorem lowerAlone_toLower (c : Char) : lowerAlone T c.toLower = lowerAlone T c := by
  by_cases hupper : c.isUpper = true
  · have halpha : c.isAlpha = true := by simp [Char.isAlpha, hupper]
    have hlower : c.toLower.isAlpha = true := by rw [Char.isAlpha_toLower_eq_isAlpha, halpha]
    rw [lowerAlone_ascii (toNat_lt_of_isAlpha halpha), lowerAlone_ascii (toNat_lt_of_isAlpha hlower),
      Char.toLower_toLower_eq_toLower]
  · rw [Char.toLower_eq_of_not_isUpper hupper]

theorem flatMap_lowerAlone_map (s : Text) :
    (s.map Char.toLower).flatMap (lowerAlone T) = s.flatMap (lowerAlone T) := by
  rw [List.flatMap_map]
  exact List.flatMap_congr fun c _ => lowerAlone_toLower c

/-- **The case of ASCII letters.** Texts that are equal up to it show the same ASCII patterns. -/
theorem infix_toLowercase_congr (hpat : ∀ d ∈ pat, d.toNat < 128) (h : EqIgnoreAsciiCase s t) :
    pat <:+: toLowercase T s ↔ pat <:+: toLowercase T t := by
  rw [infix_toLowercase_iff_alone hpat, infix_toLowercase_iff_alone hpat, ← flatMap_lowerAlone_map s, h,
    flatMap_lowerAlone_map]

/-! ## Cuts -/

/-- A pattern is on one side of a character that it does not have. -/
theorem infix_append_cons_iff (hd : d ∉ pat) : pat <:+: x ++ d :: y ↔ pat <:+: x ∨ pat <:+: y := by
  have hempty : ∀ l : Text, d ∉ l → l <+: d :: y → l = [] := by
    intro l hl h
    cases l with
    | nil => rfl
    | cons e l =>
      obtain ⟨rfl, -⟩ := List.cons_prefix_cons.mp h
      exact absurd List.mem_cons_self hl
  rw [List.infix_append_iff]
  constructor
  · rintro (h | h | ⟨l, r, rfl, hl, hr⟩)
    · exact .inl h
    · rcases List.infix_cons_iff.mp h with h | h
      · rw [hempty pat hd h]
        exact .inl List.nil_infix
      · exact .inr h
    · rw [hempty r (fun h => hd (List.mem_append_right _ h)) hr, List.append_nil]
      exact .inl hl.isInfix
  · rintro (h | h)
    · exact .inl h
    · exact .inr (.inl (List.infix_cons_iff.mpr (.inr h)))

/-- **Cutting a text.** An ASCII pattern without the character is found before or behind it. -/
theorem infix_toLowercase_cut (hpat : ∀ d ∈ pat, d.toNat < 128) (hd : Uncased d) (hmem : d ∉ pat) :
    pat <:+: toLowercase T (x ++ d :: y) ↔ pat <:+: toLowercase T x ∨ pat <:+: toLowercase T y := by
  simp only [infix_toLowercase_iff_alone hpat]
  rw [List.flatMap_append, List.flatMap_cons, lowerAlone_ascii hd.1, hd.toLower_eq, List.singleton_append,
    infix_append_cons_iff hmem]

/-- A text that shows an ASCII pattern shows it wherever it occurs. -/
theorem infix_toLowercase_mono {p : Text} (hpat : ∀ d ∈ pat, d.toNat < 128) (h : pat <:+: toLowercase T p)
    (hp : p <:+: s) : pat <:+: toLowercase T s := by
  rw [infix_toLowercase_iff_alone hpat] at h ⊢
  exact h.trans (hp.flatMap _)

end Lib
