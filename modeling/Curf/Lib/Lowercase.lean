/-!
# Lower-casing a text

`toLowercase` maps each character by the Unicode tables, except for a capital
sigma, which becomes a final or a medial one depending on the letters around it.
The tables are a parameter; what is known of them is what concerns ASCII.

`infix_toLowercase_iff` says that patterns of characters without case are found in
the lower-cased text exactly where they are in the text.
-/

namespace Lib

abbrev Text := List Char

/-- The Unicode tables that lower-casing reads. -/
structure CaseTable where
  lower : Char → List Char
  cased : Char → Bool
  caseIgnorable : Char → Bool
  lower_ne_nil : ∀ c, lower c ≠ []
  lower_ascii : ∀ c : Char, c.toNat < 128 → lower c = [c.toLower]
  /-- Only letters come from beyond ASCII into it. -/
  lower_not_ascii : ∀ c : Char, 128 ≤ c.toNat → ∀ d ∈ lower c, d.toNat < 128 → d.isLower = true

variable (T : CaseTable)

def caseIgnorableThenCased (s : Text) : Bool :=
  match s.dropWhile T.caseIgnorable with
  | [] => false
  | c :: _ => T.cased c

/-- The lower case of the character `c` between `before`, read backwards, and `after`. -/
def lowerAt (before : Text) (c : Char) (after : Text) : List Char :=
  if c = 'Σ' then
    if caseIgnorableThenCased T before && !caseIgnorableThenCased T after then ['ς'] else ['σ']
  else T.lower c

def toLowercaseFrom : Text → Text → Text
  | _, [] => []
  | before, c :: s => lowerAt T before c s ++ toLowercaseFrom (c :: before) s

def toLowercase (s : Text) : Text := toLowercaseFrom T [] s

/-- The character has no case. -/
def Uncased (d : Char) : Prop := d.toNat < 128 ∧ d.isUpper = false ∧ d.isLower = false

instance (d : Char) : Decidable (Uncased d) := inferInstanceAs (Decidable (_ ∧ _))

variable {T} {before after s pat : Text} {c d : Char}

theorem Uncased.toLower_eq (h : Uncased d) : d.toLower = d := by
  have := h.2.1
  unfold Char.isUpper at this
  unfold Char.toLower
  rw [dif_neg]
  simpa using this

/-- What an ASCII letter is lower-cased to is a letter. -/
theorem toLower_eq_or_isLower (c : Char) : c.toLower = c ∨ c.toLower.isLower = true := by
  unfold Char.toLower
  split
  · rename_i h
    right
    obtain ⟨h1, h2⟩ := h
    rw [ge_iff_le, UInt32.le_iff_toNat_le] at h1
    rw [UInt32.le_iff_toNat_le] at h2
    have hlower (d : Char) : d.isLower = (decide (d.val ≥ 'a'.val) && decide (d.val ≤ 'z'.val)) := rfl
    simp only [hlower, Bool.and_eq_true, decide_eq_true_eq, ge_iff_le, UInt32.le_iff_toNat_le,
      UInt32.toNat_add]
    have h3 : 'A'.val.toNat = 65 := rfl
    have h4 : 'Z'.val.toNat = 90 := rfl
    have h5 : 'a'.val.toNat = 97 := rfl
    have h6 : 'z'.val.toNat = 122 := rfl
    have h7 : ('a'.val - 'A'.val).toNat = 32 := rfl
    omega
  · exact .inl rfl

theorem lowerAt_ne_nil : lowerAt T before c after ≠ [] := by
  unfold lowerAt
  split
  · split <;> simp
  · exact T.lower_ne_nil c

theorem Uncased.lowerAt_self (h : Uncased d) : lowerAt T before d after = [d] := by
  have hs : d ≠ 'Σ' := fun he => absurd h.1 (by rw [he]; decide)
  rw [lowerAt, if_neg hs, T.lower_ascii d h.1, h.toLower_eq]

/-- A character without case is the lower case of itself only. -/
theorem Uncased.eq_of_mem_lowerAt (h : Uncased d) (hd : d ∈ lowerAt T before c after) : c = d := by
  unfold lowerAt at hd
  split at hd
  · split at hd
    · obtain rfl := List.mem_singleton.mp hd
      exact absurd h.1 (by decide)
    · obtain rfl := List.mem_singleton.mp hd
      exact absurd h.1 (by decide)
  · by_cases hc : c.toNat < 128
    · rw [T.lower_ascii c hc] at hd
      obtain rfl := List.mem_singleton.mp hd
      rcases toLower_eq_or_isLower c with he | he
      · exact he.symm
      · rw [h.2.2] at he
        cases he
    · have := T.lower_not_ascii c (by omega) d hd h.1
      rw [h.2.2] at this
      cases this

theorem Uncased.lowerAt_eq (h : Uncased d) (hd : d ∈ lowerAt T before c after) :
    lowerAt T before c after = [d] := by
  obtain rfl := h.eq_of_mem_lowerAt hd
  exact h.lowerAt_self

/-! ## Patterns without case -/

theorem toLowercaseFrom_append_left (before x y : Text) :
    ∃ a, toLowercaseFrom T before (x ++ y) = a ++ toLowercaseFrom T (x.reverse ++ before) y := by
  induction x generalizing before with
  | nil => exact ⟨[], rfl⟩
  | cons c x ih =>
    obtain ⟨a, ha⟩ := ih (c :: before)
    refine ⟨lowerAt T before c (x ++ y) ++ a, ?_⟩
    rw [List.cons_append, toLowercaseFrom, ha, List.append_assoc, List.reverse_cons, List.append_assoc]; rfl

theorem toLowercaseFrom_uncased (hpat : ∀ d ∈ pat, Uncased d) (before s : Text) :
    ∃ b, toLowercaseFrom T before (pat ++ s) = pat ++ b := by
  induction pat generalizing before with
  | nil => exact ⟨_, rfl⟩
  | cons d pat ih =>
    obtain ⟨b, hb⟩ := ih (fun d hd => hpat d (List.mem_cons_of_mem _ hd)) (d :: before)
    refine ⟨b, ?_⟩
    rw [List.cons_append, toLowercaseFrom, hb, (hpat d List.mem_cons_self).lowerAt_self]; rfl

/-- A pattern without case that begins the lower case begins the text. -/
theorem prefix_of_prefix_toLowercaseFrom (hpat : ∀ d ∈ pat, Uncased d) {before s : Text}
    (h : pat <+: toLowercaseFrom T before s) : pat <+: s := by
  induction pat generalizing before s with
  | nil => exact List.nil_prefix
  | cons d pat ih =>
    cases s with
    | nil => cases List.prefix_nil.mp h
    | cons c s =>
      rw [toLowercaseFrom] at h
      have hd := hpat d List.mem_cons_self
      have hmem : d ∈ lowerAt T before c s := by
        obtain ⟨e, es, he⟩ := List.exists_cons_of_ne_nil (lowerAt_ne_nil : lowerAt T before c s ≠ [])
        rw [he, List.cons_append, List.cons_prefix_cons] at h
        rw [he, h.1]
        exact List.mem_cons_self
      obtain rfl := hd.eq_of_mem_lowerAt hmem
      rw [hd.lowerAt_self, List.singleton_append, List.cons_prefix_cons] at h
      exact List.cons_prefix_cons.mpr ⟨rfl, ih (fun d hd => hpat d (List.mem_cons_of_mem _ hd)) h.2⟩

theorem infix_of_infix_toLowercaseFrom (hpat : ∀ d ∈ pat, Uncased d) {before s : Text}
    (h : pat <:+: toLowercaseFrom T before s) : pat <:+: s := by
  induction s generalizing before with
  | nil => exact h
  | cons c s ih =>
    by_cases hp : pat <+: toLowercaseFrom T before (c :: s)
    · exact (prefix_of_prefix_toLowercaseFrom hpat hp).isInfix
    · have htail : pat <:+: toLowercaseFrom T (c :: before) s := by
        obtain ⟨l, r, hlr⟩ := h
        rw [toLowercaseFrom, List.append_assoc] at hlr
        rcases List.append_eq_append_iff.mp hlr with ⟨m, hm, ht⟩ | ⟨m, hm, ht⟩
        · cases pat with
          | nil => exact List.nil_infix
          | cons d pat =>
            cases m with
            | nil => exact ⟨[], r, ht⟩
            | cons e m =>
              obtain ⟨rfl, -⟩ := List.cons.inj ht
              have hd := hpat d List.mem_cons_self
              have hone : lowerAt T before c s = [d] := hd.lowerAt_eq (by rw [hm]; simp)
              have hl : l = [] := by
                have := congrArg List.length (hm.symm.trans hone)
                rw [List.length_append, List.length_cons, List.length_singleton] at this
                exact List.length_eq_zero_iff.mp (by omega)
              subst hl
              exact absurd ⟨r, hlr⟩ hp
        · exact ⟨m, r, by rw [List.append_assoc, ht]⟩
      exact (ih htail).trans (List.suffix_cons c s).isInfix

/-- **Lower-casing and patterns.** A pattern without case occurs in the lower-cased
text exactly when it occurs in the text. -/
theorem infix_toLowercase_iff (hpat : ∀ d ∈ pat, Uncased d) : pat <:+: toLowercase T s ↔ pat <:+: s := by
  constructor
  · exact infix_of_infix_toLowercaseFrom hpat
  · rintro ⟨x, y, rfl⟩
    rw [toLowercase, List.append_assoc]
    obtain ⟨a, ha⟩ := toLowercaseFrom_append_left (T := T) [] x (pat ++ y)
    obtain ⟨b, hb⟩ := toLowercaseFrom_uncased (T := T) hpat (x.reverse ++ []) y
    exact ⟨a, b, by rw [ha, hb, List.append_assoc]⟩

/-! ## ASCII texts -/

theorem toLowercaseFrom_ascii (before : Text) (hs : ∀ c ∈ s, c.toNat < 128) :
    toLowercaseFrom T before s = s.map Char.toLower := by
  induction s generalizing before with
  | nil => rfl
  | cons c s ih =>
    have hc := hs c List.mem_cons_self
    have hsigma : c ≠ 'Σ' := fun he => absurd hc (by rw [he]; decide)
    rw [toLowercaseFrom, lowerAt, if_neg hsigma, T.lower_ascii c hc,
      ih (c :: before) fun d hd => hs d (List.mem_cons_of_mem _ hd)]
    rfl

/-- Lower-casing an ASCII text goes character by character. -/
theorem toLowercase_ascii (hs : ∀ c ∈ s, c.toNat < 128) : toLowercase T s = s.map Char.toLower :=
  toLowercaseFrom_ascii [] hs

/-! ## Substring search -/

/-- Whether `pat` occurs in a text. -/
def contains (pat : Text) : Text → Bool
  | [] => pat.isEmpty
  | c :: s => pat.isPrefixOf (c :: s) || contains pat s

theorem contains_iff : contains pat s = true ↔ pat <:+: s := by
  induction s with
  | nil => simp [contains]
  | cons c s ih => rw [contains, Bool.or_eq_true, List.isPrefixOf_iff_prefix, ih, List.infix_cons_iff]

/-- Tables that know ASCII only. -/
def asciiTable : CaseTable where
  lower c := [c.toLower]
  cased c := c.isAlpha
  caseIgnorable c := c = '.' || c = '\'' || c = ':'
  lower_ne_nil _ := List.cons_ne_nil _ _
  lower_ascii _ _ := rfl
  lower_not_ascii c hc d hd hlt := by
    obtain rfl := List.mem_singleton.mp hd
    rcases toLower_eq_or_isLower c with he | he
    · rw [he] at hlt; omega
    · exact he

end Lib
