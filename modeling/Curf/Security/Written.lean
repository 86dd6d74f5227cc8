import Curf.Lib.AsciiCase
import Curf.Static.DecodedPath

/-!
# How a request is written

A byte of what a request stands for is there itself, as `%` with two digits, or, for a
space in a query, as `+`. `DecodesAll.decode_written` reads the decoded text off the way it
is written. `infix_toLowercase_raw` says where the raw text shows a pattern without `%` and
`+`: in a stretch without escapes, or from the digits of an escape on.
-/

namespace Curf

open Lib StaticFileServer

/-- The ways to write a byte. -/
inductive Written
  | plain (b : UInt8)
  | escape (hi lo : UInt8)
  | plus
  deriving DecidableEq, Repr

namespace Written

/-- The byte that is meant. -/
def value : Written → UInt8
  | plain b => b
  | escape hi lo => 16 * (hexDigit hi).getD 0 + (hexDigit lo).getD 0
  | plus => 32

/-- What the request shows. -/
def raw : Written → Bytes
  | plain b => [b]
  | escape hi lo => [37, hi, lo]
  | plus => [43]

def isPlain : Written → Bool
  | plain _ => true
  | escape .. | plus => false

/-- In a query, `+` is a space. -/
def inQuery : Written → Written
  | plain b => if b = 43 then plus else plain b
  | escape hi lo => escape hi lo
  | plus => plus

@[simp] theorem raw_inQuery (w : Written) : w.inQuery.raw = w.raw := by
  cases w with
  | plain b =>
    rw [inQuery]
    split
    · rename_i hb
      rw [hb]
      rfl
    · rfl
  | escape hi lo => rfl
  | plus => rfl

theorem raw_of_isPlain {w : Written} (h : w.isPlain = true) : w.raw = [w.value] := by
  cases w with
  | plain b => rfl
  | escape hi lo => cases h
  | plus => cases h

theorem flatMap_raw_of_isPlain {us : List Written} (h : ∀ u ∈ us, u.isPlain = true) :
    us.flatMap raw = us.map value := by
  induction us with
  | nil => rfl
  | cons u us ih =>
    rw [List.flatMap_cons, raw_of_isPlain (h u List.mem_cons_self), ih fun v hv => h v (List.mem_cons_of_mem u hv)]
    rfl

end Written

/-- How the bytes of a path are written. -/
def written : Bytes → List Written
  | [] => []
  | 37 :: a :: b :: bs =>
    match hexDigit a, hexDigit b with
    | some _, some _ => .escape a b :: written bs
    | _, _ => .plain 37 :: written (a :: b :: bs)
  | b :: bs => .plain b :: written bs

/-- In a query, `+` stands for a space. -/
def plusToSpace (bs : Bytes) : Bytes := bs.map fun b => if b = 43 then 32 else b

variable {percentDecode : Bytes → Bytes} {bs pre : Bytes} {ws us : List Written} {T : CaseTable} {s pat : Text}

/-! ## The bytes of a request -/

theorem written_escape {a b x y : UInt8} (ha : hexDigit a = some x) (hb : hexDigit b = some y) (bs : Bytes) :
    written (37 :: a :: b :: bs) = .escape a b :: written bs := by
  rw [written, ha, hb]

theorem written_other {b : UInt8} (hb : b ≠ 37) (bs : Bytes) : written (b :: bs) = .plain b :: written bs := by
  rw [written]
  rintro a c bs rfl
  exact absurd rfl hb

theorem written_percent (h : NoDigits bs) : written (37 :: bs) = .plain 37 :: written bs := by
  cases bs with
  | nil => rfl
  | cons a bs =>
    cases bs with
    | nil => rfl
    | cons b bs =>
      rw [written]
      split
      · rename_i hb ha
        rcases h a b bs rfl with h | h
        · rw [h] at hb
          cases hb
        · rw [h] at ha
          cases ha
      · rfl

theorem raw_written (bs : Bytes) : (written bs).flatMap Written.raw = bs := by
  induction bs using decode_induction with
  | nil => rfl
  | escape a b x y bs ha hb ih => rw [written_escape ha hb, List.flatMap_cons, ih, Written.raw]; rfl
  | other b bs hb ih => rw [written_other hb, List.flatMap_cons, ih, Written.raw]; rfl
  | percent bs h ih => rw [written_percent h, List.flatMap_cons, ih, Written.raw]; rfl

theorem written_self (h : 37 ∉ bs) : written bs = bs.map Written.plain := by
  induction bs with
  | nil => rfl
  | cons b bs ih =>
    obtain ⟨hb, hbs⟩ := not_or.mp (mt List.mem_cons.mpr h)
    rw [written_other (Ne.symm hb), ih hbs, List.map_cons]

theorem isPlain_of_mem_written (h : 37 ∉ bs) : ∀ u ∈ written bs, u.isPlain = true := by
  intro u hu
  rw [written_self h] at hu
  obtain ⟨b, -, rfl⟩ := List.mem_map.mp hu
  rfl

theorem isPlain_of_mem_written_inQuery (h : 37 ∉ bs) (hplus : 43 ∉ bs) :
    ∀ u ∈ (written bs).map Written.inQuery, u.isPlain = true := by
  intro u hu
  rw [written_self h, List.map_map] at hu
  obtain ⟨b, hb, rfl⟩ := List.mem_map.mp hu
  have hne : b ≠ 43 := fun he => hplus (he ▸ hb)
  show (Written.inQuery (.plain b)).isPlain = true
  rw [Written.inQuery, if_neg hne]
  rfl

theorem DecodesAll.decode_written (hd : DecodesAll percentDecode) (bs : Bytes) :
    percentDecode bs = (written bs).map Written.value := by
  induction bs using decode_induction with
  | nil => exact hd.nil
  | escape a b x y bs ha hb ih =>
    rw [hd.escape a b x y bs ha hb, written_escape ha hb, List.map_cons, ← ih, Written.value, ha, hb]
    rfl
  | other b bs hb ih => rw [hd.other b bs hb, written_other hb, List.map_cons, ← ih, Written.value]
  | percent bs h ih => rw [hd.percent bs h, written_percent h, List.map_cons, ← ih, Written.value]

theorem hexDigit_plus (b : UInt8) : hexDigit (if b = 43 then 32 else b) = hexDigit b := by
  split
  · rename_i h
    rw [h]
    rfl
  · rfl

theorem plus_of_hexDigit {b x : UInt8} (h : hexDigit b = some x) : (if b = 43 then 32 else b) = b :=
  if_neg fun hb => by
    rw [hb] at h
    cases h

theorem NoDigits.plusToSpace (h : NoDigits bs) : NoDigits (plusToSpace bs) := by
  intro a b rest he
  cases bs with
  | nil => cases he
  | cons c bs =>
    cases bs with
    | nil => cases he
    | cons d bs =>
      obtain ⟨hc, he⟩ := List.cons.inj he
      obtain ⟨hd, -⟩ := List.cons.inj he
      rw [← hc, ← hd, hexDigit_plus, hexDigit_plus]
      exact h c d bs rfl

theorem DecodesAll.decode_plusToSpace (hd : DecodesAll percentDecode) (bs : Bytes) :
    percentDecode (plusToSpace bs) = ((written bs).map Written.inQuery).map Written.value := by
  induction bs using decode_induction with
  | nil => exact hd.nil
  | escape a b x y bs ha hb ih =>
    have hplus : plusToSpace (37 :: a :: b :: bs) = 37 :: a :: b :: plusToSpace bs := by
      simp only [plusToSpace, List.map_cons, plus_of_hexDigit ha, plus_of_hexDigit hb]
      rfl
    rw [hplus, hd.escape a b x y _ ha hb, ih, written_escape ha hb, List.map_cons, List.map_cons, Written.inQuery,
      Written.value, ha, hb]
    rfl
  | other b bs hb ih =>
    have hplus : plusToSpace (b :: bs) = (if b = 43 then 32 else b) :: plusToSpace bs := rfl
    have hne : (if b = 43 then 32 else b) ≠ 37 := by
      split
      · decide
      · exact hb
    rw [hplus, hd.other _ _ hne, ih, written_other hb, List.map_cons, List.map_cons, Written.inQuery]
    split <;> rfl
  | percent bs h ih =>
    have hplus : plusToSpace (37 :: bs) = 37 :: plusToSpace bs := rfl
    rw [hplus, hd.percent _ h.plusToSpace, ih, written_percent h]
    rfl

/-! ## Patterns in the raw text -/

/-- The units stand for a text that shows the pattern, in whatever case. -/
def Written.Shows (T : CaseTable) (pat : Text) (us : List Written) : Prop :=
  ∃ p, utf8 p = us.map value ∧ pat <:+: toLowercase T p

/-- The bytes, and units without escapes behind them, show the pattern. -/
def Written.ShowsBehind (T : CaseTable) (pat : Text) (pre : Bytes) (us : List Written) : Prop :=
  (∀ u ∈ us, u.isPlain = true) ∧ ∃ p, utf8 p = pre ++ us.map value ∧ pat <:+: toLowercase T p

/-- In a stretch without escapes, or behind the `%` of an escape, the pattern is shown. -/
def Written.ShownRaw (T : CaseTable) (pat : Text) (ws : List Written) : Prop :=
  (∃ us, us <:+: ws ∧ ShowsBehind T pat [] us) ∨
    ∃ hi lo us, .escape hi lo :: us <:+: ws ∧ ShowsBehind T pat [hi, lo] us

theorem Written.ShownRaw.cons (w : Written) (h : ShownRaw T pat ws) : ShownRaw T pat (w :: ws) := by
  rcases h with ⟨us, hus, h⟩ | ⟨hi, lo, us, hus, h⟩
  · exact .inl ⟨us, List.infix_cons hus, h⟩
  · exact .inr ⟨hi, lo, us, List.infix_cons hus, h⟩

theorem showsBehind_nil {p : Text} (hp : utf8 p = pre) (h : pat <:+: toLowercase T p) :
    Written.ShowsBehind T pat pre [] :=
  ⟨fun u hu => (List.not_mem_nil hu).elim, p, by rw [hp, List.map_nil, List.append_nil], h⟩

/-- A character without case cuts what is shown. -/
theorem shown_cut {d : Char} {b : UInt8} {rest : Bytes} (hpat : ∀ c ∈ pat, c.toNat < 128) (hd : Uncased d)
    (hb : d.toNat = b.toNat) (hmem : d ∉ pat) (hs : utf8 s = pre ++ b :: rest) (h : pat <:+: toLowercase T s) :
    (∃ p, utf8 p = pre ∧ pat <:+: toLowercase T p) ∨ ∃ p, utf8 p = rest ∧ pat <:+: toLowercase T p := by
  obtain ⟨x, c, y, rfl, hx, hy, hc⟩ := exists_of_utf8_eq_append_cons hs (hb ▸ hd.1)
  obtain rfl : c = d := Char.toNat_inj.mp (hc.trans hb.symm)
  rcases (infix_toLowercase_cut hpat hd hmem).mp h with h | h
  · exact .inl ⟨x, hx, h⟩
  · exact .inr ⟨y, hy, h⟩

/-- No pattern without `%` and `+` goes over the beginning of an escape or over a `+`: by
induction on the units, with the bytes since the last cut in front. -/
theorem shownRaw_of_infix (hpat : ∀ d ∈ pat, d.toNat < 128) (hpercent : '%' ∉ pat) (hplus : '+' ∉ pat)
    (hs : utf8 s = pre ++ ws.flatMap Written.raw) (h : pat <:+: toLowercase T s) :
    (∃ us, us <+: ws ∧ Written.ShowsBehind T pat pre us) ∨ Written.ShownRaw T pat ws := by
  induction ws generalizing s pre with
  | nil =>
    have hpre : utf8 s = pre := by rw [hs, List.flatMap_nil, List.append_nil]
    exact .inl ⟨[], List.prefix_rfl, showsBehind_nil hpre h⟩
  | cons w ws ih =>
    rw [List.flatMap_cons] at hs
    cases w with
    | plain b =>
      have hstep : utf8 s = (pre ++ [b]) ++ ws.flatMap Written.raw := by
        rw [hs, Written.raw, List.append_assoc]
      rcases ih hstep h with ⟨us, hus, hplain, p, hp, hshown⟩ | hraw
      · refine .inl ⟨.plain b :: us, (List.prefix_cons_inj _).mpr hus, ?_, p, ?_, hshown⟩
        · exact List.forall_mem_cons.mpr ⟨rfl, hplain⟩
        · rw [hp, List.append_assoc]
          rfl
      · exact .inr (hraw.cons _)
    | escape hi lo =>
      rcases shown_cut hpat (d := '%') (b := 37) (by decide) rfl hpercent hs h with ⟨p, hp, h⟩ | ⟨p, hp, h⟩
      · exact .inl ⟨[], List.nil_prefix, showsBehind_nil hp h⟩
      · right
        rcases ih (show utf8 p = [hi, lo] ++ ws.flatMap Written.raw from hp) h with ⟨us, hus, hshown⟩ | hraw
        · exact .inr ⟨hi, lo, us, ((List.prefix_cons_inj _).mpr hus).isInfix, hshown⟩
        · exact hraw.cons _
    | plus =>
      rcases shown_cut hpat (d := '+') (b := 43) (by decide) rfl hplus hs h with ⟨p, hp, h⟩ | ⟨p, hp, h⟩
      · exact .inl ⟨[], List.nil_prefix, showsBehind_nil hp h⟩
      · right
        rcases ih (show utf8 p = [] ++ ws.flatMap Written.raw from hp) h with ⟨us, hus, hshown⟩ | hraw
        · exact .inl ⟨us, (hus.isInfix).trans (List.suffix_cons _ _).isInfix, hshown⟩
        · exact hraw.cons _

/-- What is shown behind some bytes of a text is shown by the text. -/
theorem infix_of_showsBehind (hpat : ∀ d ∈ pat, d.toNat < 128) (h : Written.ShowsBehind T pat pre us)
    (hshow : pre ++ us.flatMap Written.raw <:+: utf8 s) : pat <:+: toLowercase T s := by
  obtain ⟨hplain, p, hp, hshown⟩ := h
  rw [Written.flatMap_raw_of_isPlain hplain, ← hp] at hshow
  exact infix_toLowercase_mono hpat hshown (infix_of_utf8_infix_utf8 hshow)

/-- **Where the raw text shows a pattern**: without escapes, or in the digits of one and
behind them. -/
theorem infix_toLowercase_raw (hpat : ∀ d ∈ pat, d.toNat < 128) (hpercent : '%' ∉ pat) (hplus : '+' ∉ pat)
    (hs : ws.flatMap Written.raw = utf8 s) : pat <:+: toLowercase T s ↔ Written.ShownRaw T pat ws := by
  constructor
  · intro h
    have hcut : utf8 s = [] ++ ws.flatMap Written.raw := hs.symm
    rcases shownRaw_of_infix hpat hpercent hplus hcut h with ⟨us, hus, hshown⟩ | hraw
    · exact .inl ⟨us, hus.isInfix, hshown⟩
    · exact hraw
  · rintro (⟨us, hus, hshown⟩ | ⟨hi, lo, us, hus, hshown⟩)
    · refine infix_of_showsBehind hpat hshown ?_
      rw [← hs]
      exact hus.flatMap _
    · refine infix_of_showsBehind hpat hshown ?_
      rw [← hs]
      exact (List.suffix_cons 37 _).isInfix.trans (hus.flatMap Written.raw)

end Curf
