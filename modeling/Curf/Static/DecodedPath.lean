import Curf.Lib.UriReference
import Curf.Static.FileUrl
import Curf.Static.Serve

/-!
# Decoded paths in parts

No escape goes across a character that is no hexadecimal digit, so that a path is decoded
and resolved in the parts that a slash or a quote cuts it into: `components_slash` and
`length_cleanPath_le`. Slashes at the end of a path make no difference
(`components_trimmed`).
-/

namespace Curf

open Lib Lib.UnixPath StaticFileServer

/-! ## Decoding -/

/-- The bytes do not begin with two hexadecimal digits. -/
def NoDigits (bs : Bytes) : Prop :=
  ∀ a b rest, bs = a :: b :: rest → hexDigit a = none ∨ hexDigit b = none

/-- What is relied on of `percent_decode_str` for all texts: a `%` without two hexadecimal
digits after it stands for itself. -/
structure DecodesAll (percentDecode : Bytes → Bytes) : Prop extends DecodesPercent percentDecode where
  percent : ∀ bs, NoDigits bs → percentDecode (37 :: bs) = 37 :: percentDecode bs

variable {percentDecode : Bytes → Bytes}

theorem decodesAll_decodePercent : DecodesAll decodePercent where
  toDecodesPercent := decodesPercent_decodePercent
  percent bs h := by
    match bs with
    | [] => rfl
    | [_] => rfl
    | a :: b :: bs =>
      rw [decodePercent]
      split
      · rename_i hb ha
        rcases h a b bs rfl with h | h
        · rw [h] at hb
          cases hb
        · rw [h] at ha
          cases ha
      · rfl

/-- A text is empty, or begins with an escape, with another character or with a `%` alone. -/
theorem decode_induction {P : Bytes → Prop} (nil : P [])
    (escape : ∀ a b x y bs, hexDigit a = some x → hexDigit b = some y → P bs → P (37 :: a :: b :: bs))
    (other : ∀ b bs, b ≠ 37 → P bs → P (b :: bs)) (percent : ∀ bs, NoDigits bs → P bs → P (37 :: bs)) (bs : Bytes) :
    P bs := by
  induction h : bs.length using Nat.strong_induction_on generalizing bs with
  | _ n ih =>
    subst h
    cases bs with
    | nil => exact nil
    | cons b bs =>
      by_cases hb : b = 37
      · subst hb
        by_cases hdigits : NoDigits bs
        · exact percent bs hdigits (ih _ (Nat.lt_succ_self _) bs rfl)
        · simp only [NoDigits, not_forall, not_or] at hdigits
          obtain ⟨a, b, rest, rfl, ha, hb⟩ := hdigits
          obtain ⟨x, hx⟩ := Option.ne_none_iff_exists'.mp ha
          obtain ⟨y, hy⟩ := Option.ne_none_iff_exists'.mp hb
          exact escape a b x y rest hx hy (ih _ (by simp only [List.length_cons]; omega) rest rfl)
      · exact other b bs hb (ih _ (Nat.lt_succ_self _) bs rfl)

/-- **A character that is no digit is kept**: no escape goes across it. -/
theorem DecodesAll.mark (hd : DecodesAll percentDecode) {c : UInt8} (hc : hexDigit c = none) (hne : c ≠ 37)
    (x y : Bytes) : percentDecode (x ++ c :: y) = percentDecode x ++ c :: percentDecode y := by
  induction x using decode_induction with
  | nil => rw [hd.nil, List.nil_append, hd.other c y hne, List.nil_append]
  | escape a b u v bs ha hb ih =>
    rw [hd.escape a b u v bs ha hb, List.cons_append, List.cons_append, List.cons_append,
      hd.escape a b u v _ ha hb, ih, List.cons_append]
  | other b bs hb ih => rw [List.cons_append, hd.other b _ hb, ih, hd.other b bs hb, List.cons_append]
  | percent bs h ih =>
    have hdigits : NoDigits (bs ++ c :: y) := by
      intro a b rest he
      match bs with
      | [] => exact .inl ((List.cons.inj he).1 ▸ hc)
      | [d] => exact .inr ((List.cons.inj (List.cons.inj he).2).1 ▸ hc)
      | d :: e :: bs =>
        obtain ⟨ha, he⟩ := List.cons.inj he
        obtain ⟨hb, -⟩ := List.cons.inj he
        rw [← ha, ← hb]
        exact h d e bs rfl
    rw [List.cons_append, hd.percent _ hdigits, ih, hd.percent bs h, List.cons_append]

theorem DecodesAll.slash (hd : DecodesAll percentDecode) (x y : Bytes) :
    percentDecode (x ++ 47 :: y) = percentDecode x ++ 47 :: percentDecode y :=
  hd.mark (by decide) (by decide) x y

/-- A text is decoded to itself or to a shorter one. -/
theorem DecodesAll.eq_or_length_lt (hd : DecodesAll percentDecode) (bs : Bytes) :
    percentDecode bs = bs ∨ (percentDecode bs).length < bs.length := by
  induction bs using decode_induction with
  | nil => exact .inl hd.nil
  | escape a b u v bs ha hb ih =>
    right
    rw [hd.escape a b u v bs ha hb]
    simp only [List.length_cons]
    rcases ih with ih | ih
    · rw [ih]
      omega
    · omega
  | other b bs hb ih =>
    rw [hd.other b bs hb]
    rcases ih with ih | ih
    · exact .inl (by rw [ih])
    · exact .inr (Nat.succ_lt_succ ih)
  | percent bs h ih =>
    rw [hd.percent bs h]
    rcases ih with ih | ih
    · exact .inl (by rw [ih])
    · exact .inr (Nat.succ_lt_succ ih)

theorem DecodesAll.length_le (hd : DecodesAll percentDecode) (bs : Bytes) :
    (percentDecode bs).length ≤ bs.length := by
  rcases hd.eq_or_length_lt bs with h | h
  · rw [h]
  · exact h.le

namespace StaticFileServer

variable {percentDecode : Bytes → Bytes} {sf : StaticFileServer} {urlPath k x y p : Bytes} {ss : List Bytes}

/-! ## Paths cut at a slash -/

theorem isUtf8_slash : Bytes.isUtf8 (x ++ 47 :: y) = true ↔ x.isUtf8 = true ∧ y.isUtf8 = true := by
  simp only [isUtf8_iff]
  constructor
  · rintro ⟨s, hs⟩
    obtain ⟨u, c, v, -, hu, hv, -⟩ := exists_of_utf8_eq_append_cons hs.symm (by decide)
    exact ⟨⟨u, hu.symm⟩, v, hv.symm⟩
  · rintro ⟨⟨u, rfl⟩, v, rfl⟩
    refine ⟨u ++ '/' :: v, ?_⟩
    rw [utf8_append]
    rfl

theorem isUtf8_slashed (hd : DecodesAll percentDecode) :
    (percentDecode (slashed ss)).isUtf8 = true ↔ ∀ s ∈ ss, (percentDecode s).isUtf8 = true := by
  induction ss using List.reverseRecOn with
  | nil =>
    rw [show slashed [] = [] from rfl, hd.nil]
    exact ⟨fun _ => nofun, fun _ => isUtf8_iff.mpr ⟨[], rfl⟩⟩
  | append_singleton ss s ih =>
    rw [slashed_append, slashed_singleton, hd.slash, isUtf8_slash, ih]
    simp only [List.mem_append, List.mem_singleton]
    constructor
    · rintro ⟨h1, h2⟩ t (ht | rfl)
      · exact h1 t ht
      · exact h2
    · exact fun h => ⟨fun t ht => h t (.inl ht), h s (.inr rfl)⟩

theorem cleanPath_nil (hd : DecodesAll percentDecode) : cleanPath percentDecode [] = [] := by
  rw [cleanPath, hd.nil]
  rfl

/-- Behind a `?` nothing is read. -/
theorem cleanPath_question (hd : DecodesAll percentDecode) (hk : 63 ∈ percentDecode k) (y : Bytes) :
    cleanPath percentDecode (k ++ 47 :: y) = cleanPath percentDecode k := by
  rw [cleanPath, cleanPath, hd.slash, takeWhile_ne_append_of_mem hk]

theorem cleanPath_slash (hd : DecodesAll percentDecode) (hk : 63 ∉ percentDecode k) (y : Bytes) :
    cleanPath percentDecode (k ++ 47 :: y) = percentDecode k ++ 47 :: cleanPath percentDecode y := by
  rw [cleanPath, hd.slash, takeWhile_ne_append hk, List.takeWhile_cons_of_pos (by decide)]
  rfl

/-- What stands behind a slash adds its components. -/
theorem components_slash (hd : DecodesAll percentDecode) (hk : 63 ∉ percentDecode k) (y : Bytes) :
    components (cleanPath percentDecode (k ++ 47 :: y)) =
      components (cleanPath percentDecode (k ++ [47])) ++ pieces (cleanPath percentDecode y) := by
  have hend : cleanPath percentDecode (k ++ [47]) = percentDecode k ++ [47] := by
    rw [cleanPath_slash hd hk [], cleanPath_nil hd]
  rw [cleanPath_slash hd hk, hend]
  exact components_append_pieces _ _

/-- The components of a path begin with those of what stands before a slash. -/
theorem exists_components_slash (hd : DecodesAll percentDecode) (k y : Bytes) :
    ∃ z, components (cleanPath percentDecode (k ++ 47 :: y)) =
      components (cleanPath percentDecode (k ++ [47])) ++ pieces z := by
  by_cases hk : 63 ∈ percentDecode k
  · refine ⟨[], ?_⟩
    have hnil : pieces ([] : Bytes) = [] := pieces_nil
    rw [cleanPath_question hd hk, cleanPath_question hd hk, hnil, List.append_nil]
  · exact ⟨cleanPath percentDecode y, components_slash hd hk y⟩

/-- `safe_path` goes on from a directory. -/
theorem resolve_of_safePath_slash (hd : DecodesAll percentDecode) (hk : 63 ∉ percentDecode k) {q : Bytes}
    (hq : sf.safePath percentDecode (k ++ [47]) = some q) (hp : sf.safePath percentDecode (k ++ 47 :: y) = some p) :
    resolve (pieces (cleanPath percentDecode y)) q = some p := by
  have hresolve := (safePath_eq_some_iff.mp hp).2.1
  rw [components_slash hd hk, resolve_append, (safePath_eq_some_iff.mp hq).2.1] at hresolve
  exact hresolve

/-- Where a path without `..` leads: to the root and the names of the path. -/
theorem components_safePath (h : .parentDir ∉ components (cleanPath percentDecode x))
    (hp : sf.safePath percentDecode x = some p) :
    components p = components sf.root ++ (components (cleanPath percentDecode x)).filter isNormal := by
  obtain ⟨q, hq, hcomponents⟩ := resolve_of_no_parentDir (fun _ => isName_of_mem_components) h
    drivePrefix_not_mem_components sf.root
  obtain rfl := Option.some.inj (hq.symm.trans (safePath_eq_some_iff.mp hp).2.1)
  exact hcomponents

/-! ## Paths cut at a quote -/

theorem exists_last_slash (h : 47 ∈ x) : ∃ y z, x = y ++ 47 :: z ∧ 47 ∉ z := by
  obtain ⟨as, bs, hrev, has⟩ := List.eq_append_cons_of_mem (List.mem_reverse.mpr h)
  refine ⟨bs.reverse, as.reverse, ?_, fun hmem => has (List.mem_reverse.mp hmem)⟩
  rw [← List.reverse_reverse x, hrev]
  simp

theorem isName_of_quote (hslash : 47 ∉ x) (hquote : 34 ∈ x) : IsName x where
  no_sep := hslash
  single_eq := by
    have hnil : ¬ (x = [] ∨ x = [46]) := by
      rintro (rfl | rfl)
      · cases hquote
      · exact absurd hquote (by decide)
    have hdots : x ≠ [46, 46] := by
      rintro rfl
      exact absurd hquote (by decide)
    exact (if_neg hnil).trans (if_neg hdots)

theorem exists_name_of_quote (hslash : 47 ∉ x) (y : Bytes) : ∃ name, .normal name ∈ pieces (x ++ 34 :: y) := by
  by_cases hy : 47 ∈ y
  · obtain ⟨y, z, rfl, hfirst⟩ := List.eq_append_cons_of_mem hy
    have hname : IsName (x ++ 34 :: y) := isName_of_quote (by simp [hslash, hfirst]) (by simp)
    have hpieces := pieces_append (x ++ 34 :: y) z
    rw [hname.pieces_eq] at hpieces
    refine ⟨x ++ 34 :: y, ?_⟩
    have hsplit : x ++ 34 :: (y ++ 47 :: z) = x ++ 34 :: y ++ 47 :: z := by simp
    rw [hsplit]
    exact hpieces ▸ List.mem_cons_self
  · have hname : IsName (x ++ 34 :: y) := isName_of_quote (by simp [hslash, hy]) (by simp)
    exact ⟨x ++ 34 :: y, hname.pieces_eq ▸ List.mem_cons_self⟩

/-- A path that is cut at a quote goes through no more names. -/
theorem length_normals_le (x y : Bytes) :
    ((pieces x).filter isNormal).length ≤ ((pieces (x ++ 34 :: y)).filter isNormal).length := by
  -- only the piece behind the last slash changes
  have hlast : ∀ x : Bytes, 47 ∉ x →
      ((pieces x).filter isNormal).length ≤ ((pieces (x ++ 34 :: y)).filter isNormal).length := by
    intro x hx
    have hone : (pieces x).length ≤ 1 := by
      have hsplit : x.splitOn (47 : UInt8) = [x] := List.splitOn_eq_singleton hx
      exact (List.length_filterMap_le _ _).trans (by rw [show x.splitOn PathAlphabet.sep = [x] from hsplit]; rfl)
    obtain ⟨name, hname⟩ := exists_name_of_quote hx y
    have hmem : .normal name ∈ (pieces (x ++ 34 :: y)).filter isNormal := List.mem_filter.mpr ⟨hname, rfl⟩
    have hpos := List.length_pos_of_mem hmem
    have hle := List.length_filter_le isNormal (pieces x)
    omega
  by_cases hx : 47 ∈ x
  · obtain ⟨w, z, rfl, hz⟩ := exists_last_slash hx
    have hbefore := pieces_append w z
    have hafter := pieces_append w (z ++ 34 :: y)
    have hsplit : w ++ 47 :: z ++ 34 :: y = w ++ 47 :: (z ++ 34 :: y) := by simp
    have hle := hlast z hz
    rw [hsplit]
    refine (congrArg (fun cs => (cs.filter isNormal).length) hbefore).le.trans ?_
    refine le_of_le_of_eq ?_ (congrArg (fun cs => (cs.filter isNormal).length) hafter).symm
    simp only [List.filter_append, List.length_append]
    omega
  · exact hlast x hx

/-- What stands behind a quote makes a path longer at most. -/
theorem length_cleanPath_le (hd : DecodesAll percentDecode) (x y : Bytes) :
    ((pieces (cleanPath percentDecode x)).filter isNormal).length ≤
      ((pieces (cleanPath percentDecode (x ++ 34 :: y))).filter isNormal).length := by
  have hmark := hd.mark (by decide : hexDigit 34 = none) (by decide) x y
  by_cases hx : 63 ∈ percentDecode x
  · rw [cleanPath, cleanPath, hmark, takeWhile_ne_append_of_mem hx]
  · rw [cleanPath, cleanPath, hmark, takeWhile_ne_append hx, List.takeWhile_cons_of_pos (by decide), takeWhile_ne hx]
    exact length_normals_le _ _

/-! ## Trimmed paths -/

theorem exists_trimEndSlashes (urlPath : Bytes) :
    ∃ n, urlPath = trimEndSlashes urlPath ++ List.replicate n 47 := by
  refine ⟨(urlPath.reverse.takeWhile (· = 47)).length, ?_⟩
  have hall : (urlPath.reverse.takeWhile (· = 47)).reverse =
      List.replicate (urlPath.reverse.takeWhile (· = 47)).length 47 := by
    rw [List.eq_replicate_iff]
    refine ⟨List.length_reverse, fun b hb => ?_⟩
    simpa using List.mem_takeWhile_imp (List.mem_reverse.mp hb)
  rw [← hall, trimEndSlashes, ← List.reverse_append, List.takeWhile_append_dropWhile, List.reverse_reverse]

theorem trimEndSlashes_ne_concat (urlPath x : Bytes) : trimEndSlashes urlPath ≠ x ++ [47] := by
  intro h
  have hrev : urlPath.reverse.dropWhile (· = 47) = 47 :: x.reverse := by
    rw [← List.reverse_reverse (urlPath.reverse.dropWhile (· = 47))]
    exact (congrArg List.reverse h).trans (by simp)
  have hhead := List.head?_dropWhile_not (fun b : UInt8 => decide (b = 47)) urlPath.reverse
  rw [hrev] at hhead
  simp at hhead

theorem head?_trimEndSlashes (h : urlPath.head? = some 47) :
    trimEndSlashes urlPath = [] ∨ (trimEndSlashes urlPath).head? = some 47 := by
  obtain ⟨n, hn⟩ := exists_trimEndSlashes urlPath
  cases ht : trimEndSlashes urlPath with
  | nil => exact .inl rfl
  | cons b t =>
    rw [hn, ht] at h
    exact .inr h

theorem pieces_slashes (hd : DecodesAll percentDecode) (n : Nat) :
    pieces (cleanPath percentDecode (List.replicate n 47)) = [] := by
  induction n with
  | zero =>
    rw [List.replicate_zero, cleanPath_nil hd]
    exact pieces_nil
  | succ n ih =>
    have hk : 63 ∉ percentDecode [] := by
      rw [hd.nil]
      decide
    have hslash := cleanPath_slash hd hk (List.replicate n 47)
    rw [hd.nil, List.nil_append, List.nil_append] at hslash
    rw [List.replicate_succ, hslash]
    exact (pieces_append [] _).trans (by rw [ih]; exact List.append_nil _)

/-- Slashes at the end of a path make no difference. -/
theorem components_trimmed (hd : DecodesAll percentDecode) (hhead : urlPath.head? = some 47) :
    components (cleanPath percentDecode urlPath) =
      components (cleanPath percentDecode (trimEndSlashes urlPath ++ [47])) := by
  obtain ⟨n, hn⟩ := exists_trimEndSlashes urlPath
  conv => lhs; rw [hn]
  cases n with
  | succ n =>
    rw [List.replicate_succ]
    by_cases hk : 63 ∈ percentDecode (trimEndSlashes urlPath)
    · rw [cleanPath_question hd hk, cleanPath_question hd hk]
    · rw [components_slash hd hk, pieces_slashes hd, List.append_nil]
  | zero =>
    rw [List.replicate_zero, List.append_nil]
    by_cases hk : 63 ∈ percentDecode (trimEndSlashes urlPath)
    · rw [cleanPath_question hd hk]
    · have hne : percentDecode (trimEndSlashes urlPath) ≠ [] := by
        rw [List.replicate_zero, List.append_nil] at hn
        obtain ⟨t, ht⟩ := List.head?_eq_some_iff.mp (hn ▸ hhead)
        rw [ht]
        have hslash := hd.slash [] t
        rw [List.nil_append] at hslash
        rw [hslash]
        simp
      rw [cleanPath_slash hd hk, cleanPath_nil hd, cleanPath, takeWhile_ne hk]
      have happend := components_append hne (x := ([] : Bytes))
      exact (happend.trans (List.append_nil _)).symm

/-- The segments of the trimmed path are segments of the path. -/
theorem mem_segments_trimmed (hhead : urlPath.head? = some 47) {s : Bytes}
    (hs : s ∈ segmentsOf (trimEndSlashes urlPath)) : s ∈ segmentsOf urlPath := by
  obtain ⟨n, hn⟩ := exists_trimEndSlashes urlPath
  have hbase := slashed_segmentsOf (head?_trimEndSlashes hhead)
  have hpath : urlPath = slashed (segmentsOf (trimEndSlashes urlPath) ++ List.replicate n []) := by
    rw [slashed_append, hbase, slashed_replicate]
    exact hn
  have hall : ∀ t ∈ segmentsOf (trimEndSlashes urlPath) ++ List.replicate n [], 47 ∉ t := by
    intro t ht
    rcases List.mem_append.mp ht with ht | ht
    · exact slash_not_mem_segment ht
    · rw [List.eq_of_mem_replicate ht]
      decide
  rw [hpath, segmentsOf_slashed hall]
  exact List.mem_append_left _ hs

end StaticFileServer

end Curf
