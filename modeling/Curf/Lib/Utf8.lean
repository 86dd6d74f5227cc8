/-!
# ASCII in UTF-8

In the UTF-8 encoding of a text, a byte below 128 is the encoding of a character
of its own.
-/

namespace Lib

variable {c : Char} {b : UInt8} {s : List Char}

/-- The UTF-8 encoding. -/
def utf8 (s : List Char) : List UInt8 := s.flatMap String.utf8EncodeChar

theorem utf8EncodeChar_ne_nil (c : Char) : String.utf8EncodeChar c ≠ [] := by
  unfold String.utf8EncodeChar
  dsimp only
  split
  · simp
  · split
    · simp
    · split <;> simp

/-- An ASCII byte of an encoded character is all of it. -/
theorem utf8EncodeChar_eq_of_mem (h : b ∈ String.utf8EncodeChar c) (hb : b.toNat < 128) :
    String.utf8EncodeChar c = [b] ∧ c.toNat = b.toNat := by
  unfold String.utf8EncodeChar at h ⊢
  dsimp only at h ⊢
  split
  · rename_i hv
    rw [if_pos hv] at h
    obtain rfl := List.mem_singleton.mp h
    refine ⟨rfl, ?_⟩
    rw [UInt8.toNat_ofNat']
    show c.val.toNat = _
    omega
  · rename_i hv
    rw [if_neg hv] at h
    split at h
    · simp only [List.mem_cons, List.not_mem_nil, or_false] at h
      rcases h with rfl | rfl <;> rw [UInt8.toNat_ofNat'] at hb <;> omega
    · split at h
      · simp only [List.mem_cons, List.not_mem_nil, or_false] at h
        rcases h with rfl | rfl | rfl <;> rw [UInt8.toNat_ofNat'] at hb <;> omega
      · simp only [List.mem_cons, List.not_mem_nil, or_false] at h
        rcases h with rfl | rfl | rfl | rfl <;> rw [UInt8.toNat_ofNat'] at hb <;> omega

/-- An ASCII byte cuts the text at a character. -/
theorem exists_of_utf8_eq_append_cons {x y : List UInt8} (h : utf8 s = x ++ b :: y) (hb : b.toNat < 128) :
    ∃ u c v, s = u ++ c :: v ∧ utf8 u = x ∧ utf8 v = y ∧ c.toNat = b.toNat := by
  induction s generalizing x with
  | nil => cases x <;> cases h
  | cons a s ih =>
    rw [utf8, List.flatMap_cons] at h
    rcases List.append_eq_append_iff.mp h with ⟨m, hm, ht⟩ | ⟨m, hm, ht⟩
    · obtain ⟨u, c, v, rfl, rfl, rfl, hc⟩ := ih ht
      exact ⟨a :: u, c, v, rfl, hm.symm, rfl, hc⟩
    · cases m with
      | nil =>
        obtain ⟨u, c, v, rfl, hu, rfl, hc⟩ := ih (x := []) ht.symm
        refine ⟨a :: u, c, v, rfl, ?_, rfl, hc⟩
        show String.utf8EncodeChar a ++ utf8 u = x
        rw [hu, hm, List.append_nil, List.append_nil]
      | cons d m =>
        obtain ⟨rfl, hy⟩ := List.cons.inj ht
        obtain ⟨hone, hc⟩ := utf8EncodeChar_eq_of_mem (c := a) (by rw [hm]; simp) hb
        rw [hone] at hm
        have hlen := congrArg List.length hm
        simp only [List.length_append, List.length_cons, List.length_nil] at hlen
        have hx : x = [] := List.length_eq_zero_iff.mp (by omega)
        have hm' : m = [] := List.length_eq_zero_iff.mp (by omega)
        subst hx hm'
        exact ⟨[], a, s, rfl, rfl, hy.symm, hc⟩

theorem utf8_eq_nil (h : utf8 s = []) : s = [] := by
  cases s with
  | nil => rfl
  | cons c s =>
    rw [utf8, List.flatMap_cons, List.append_eq_nil_iff] at h
    exact absurd h.1 (utf8EncodeChar_ne_nil c)

/-- ASCII bytes at the beginning are the characters at the beginning. -/
theorem exists_of_utf8_eq_append {bs y : List UInt8} (hbs : ∀ b ∈ bs, b.toNat < 128)
    (h : utf8 s = bs ++ y) :
    ∃ cs v, s = cs ++ v ∧ utf8 v = y ∧ cs.map Char.toNat = bs.map UInt8.toNat := by
  induction bs generalizing s with
  | nil => exact ⟨[], s, rfl, h, rfl⟩
  | cons b bs ih =>
    obtain ⟨u, c, v, rfl, hu, hv, hc⟩ := exists_of_utf8_eq_append_cons (x := []) h (hbs b List.mem_cons_self)
    obtain rfl := utf8_eq_nil hu
    obtain ⟨cs, w, rfl, hw, hcs⟩ := ih (fun b hb => hbs b (List.mem_cons_of_mem _ hb)) hv
    exact ⟨c :: cs, w, rfl, hw, by rw [List.map_cons, List.map_cons, hc, hcs]⟩

theorem eq_of_codes {cs pat : List Char} (h : cs.map Char.toNat = pat.map Char.toNat) : cs = pat :=
  (List.map_inj_right fun _ _ hab => Char.toNat_inj.mp hab).mp h

variable {pat : List Char} {bs : List UInt8}

/-- The bytes of an ASCII text are those of no other. -/
theorem eq_of_utf8_eq (hbs : ∀ b ∈ bs, b.toNat < 128) (hpat : pat.map Char.toNat = bs.map UInt8.toNat)
    (h : utf8 s = bs) : s = pat := by
  obtain ⟨cs, v, rfl, hv, hcs⟩ := exists_of_utf8_eq_append hbs (h.trans (List.append_nil bs).symm)
  obtain rfl := utf8_eq_nil hv
  rw [List.append_nil]
  exact eq_of_codes (hcs.trans hpat.symm)

/-- Cutting a text at the first byte of an ASCII pattern. -/
theorem exists_of_utf8_eq_append_append {x y : List UInt8} (hne : bs ≠ []) (hbs : ∀ b ∈ bs, b.toNat < 128)
    (hpat : pat.map Char.toNat = bs.map UInt8.toNat) (h : utf8 s = x ++ (bs ++ y)) :
    ∃ u v, s = u ++ (pat ++ v) ∧ utf8 u = x ∧ utf8 v = y := by
  obtain ⟨b, bs, rfl⟩ := List.exists_cons_of_ne_nil hne
  obtain ⟨u, c, v, rfl, hu, hv, hc⟩ := exists_of_utf8_eq_append_cons h (hbs b List.mem_cons_self)
  obtain ⟨cs, w, rfl, hw, hcs⟩ := exists_of_utf8_eq_append
    (fun b hb => hbs b (List.mem_cons_of_mem _ hb)) hv
  have heq : c :: cs = pat := eq_of_codes (by rw [hpat, List.map_cons, List.map_cons, hc, hcs])
  exact ⟨u, w, by rw [← heq]; rfl, hu, hw⟩

/-- **ASCII patterns.** Where the bytes of an ASCII pattern occur, the pattern does. -/
theorem infix_of_utf8_infix (hne : bs ≠ []) (hbs : ∀ b ∈ bs, b.toNat < 128)
    (hpat : pat.map Char.toNat = bs.map UInt8.toNat) (h : bs <:+: utf8 s) : pat <:+: s := by
  obtain ⟨x, y, hxy⟩ := h
  rw [List.append_assoc] at hxy
  obtain ⟨u, v, rfl, -, -⟩ := exists_of_utf8_eq_append_append hne hbs hpat hxy.symm
  exact ⟨u, v, List.append_assoc ..⟩

theorem suffix_of_utf8_suffix (hne : bs ≠ []) (hbs : ∀ b ∈ bs, b.toNat < 128)
    (hpat : pat.map Char.toNat = bs.map UInt8.toNat) (h : bs <:+ utf8 s) : pat <:+ s := by
  obtain ⟨x, hx⟩ := h
  obtain ⟨u, v, rfl, -, hv⟩ := exists_of_utf8_eq_append_append (x := x) (y := []) hne hbs hpat
    (by rw [← hx, List.append_nil])
  obtain rfl := utf8_eq_nil hv
  exact ⟨u, by rw [List.append_nil]⟩

/-! ## Texts in texts -/

/-- A byte that begins a character cuts the text there. -/
theorem exists_of_utf8_eq_append_first {x y : List UInt8} (h : utf8 s = x ++ b :: y) (hb : b.IsUTF8FirstByte) :
    ∃ u v, s = u ++ v ∧ utf8 u = x ∧ utf8 v = b :: y := by
  induction s generalizing x with
  | nil => cases x <;> cases h
  | cons a s ih =>
    rw [utf8, List.flatMap_cons] at h
    rcases List.append_eq_append_iff.mp h with ⟨m, hm, ht⟩ | ⟨m, hm, ht⟩
    · obtain ⟨u, v, rfl, rfl, hv⟩ := ih ht
      exact ⟨a :: u, v, rfl, hm.symm, hv⟩
    · cases x with
      | nil => exact ⟨[], a :: s, rfl, rfl, h⟩
      | cons d x =>
        cases m with
        | nil =>
          obtain ⟨u, v, rfl, hu, hv⟩ := ih (x := []) ht.symm
          refine ⟨a :: u, v, rfl, ?_, hv⟩
          show String.utf8EncodeChar a ++ utf8 u = d :: x
          rw [hu, hm, List.append_nil, List.append_nil]
        | cons e m =>
          -- the byte would be a later one of the character
          obtain ⟨rfl, -⟩ := List.cons.inj ht
          have hlen : (d :: x).length < (String.utf8EncodeChar a).length := by rw [hm]; simp
          have hbyte : (String.utf8EncodeChar a)[(d :: x).length] = b := by simp [hm]
          rw [← hbyte, UInt8.isUTF8FirstByte_getElem_utf8EncodeChar] at hb
          cases hb

/-- **Texts are found by their bytes.** -/
theorem infix_of_utf8_infix_utf8 {t : List Char} (h : utf8 t <:+: utf8 s) : t <:+: s := by
  cases t with
  | nil => exact List.nil_infix
  | cons c t =>
    obtain ⟨x, y, hxy⟩ := h
    obtain ⟨b, bs, hbs⟩ := List.exists_cons_of_ne_nil (utf8EncodeChar_ne_nil c)
    have hfirst : b.IsUTF8FirstByte := by
      have := UInt8.isUTF8FirstByte_getElem_zero_utf8EncodeChar (c := c)
      simpa [hbs] using this
    have htext : utf8 (c :: t) = b :: (bs ++ utf8 t) := by rw [utf8, List.flatMap_cons, hbs]; rfl
    obtain ⟨u, v, rfl, -, hv⟩ := exists_of_utf8_eq_append_first (s := s) (x := x) (y := bs ++ utf8 t ++ y)
      (by rw [← hxy, htext, List.append_assoc]; rfl) hfirst
    have hstart : (c :: t).utf8Encode ++ y.toByteArray = v.utf8Encode := by
      show (utf8 (c :: t)).toByteArray ++ y.toByteArray = (utf8 v).toByteArray
      rw [← List.toByteArray_append, hv, htext]; rfl
    have hpart : c :: t <:+: v := (List.isPrefix_of_utf8Encode_append_eq_utf8Encode _ hstart).isInfix
    exact hpart.trans (List.suffix_append u v).isInfix

theorem toNat_toUInt8 {c : Char} (h : c.toNat < 128) : c.toUInt8.toNat = c.toNat := by
  show c.toNat % 256 = c.toNat
  omega

theorem toNat_ofNat_byte (b : UInt8) : (Char.ofNat b.toNat).toNat = b.toNat := by
  have hvalid : b.toNat.isValidChar := .inl (Nat.lt_trans b.toNat_lt (by decide))
  rw [Char.ofNat, dif_pos hvalid]
  rfl

/-- An ASCII text is encoded character by character. -/
theorem utf8_eq_map (hs : ∀ c ∈ s, c.toNat < 128) : utf8 s = s.map Char.toUInt8 := by
  induction s with
  | nil => rfl
  | cons c s ih =>
    have hc : c.val.toNat ≤ 127 := Nat.le_of_lt_succ (hs c List.mem_cons_self)
    have hone : String.utf8EncodeChar c = [c.toUInt8] := by
      unfold String.utf8EncodeChar
      dsimp only
      rw [if_pos hc]
      rfl
    rw [utf8, List.flatMap_cons, hone, List.map_cons, ← ih fun d hd => hs d (List.mem_cons_of_mem _ hd)]
    rfl

/-- A text that begins with the bytes of an ASCII text begins with that text. -/
theorem exists_of_ascii_append {t : List Char} {q : List UInt8} (ht : ∀ c ∈ t, c.toNat < 128)
    (h : utf8 t ++ q = utf8 s) : ∃ v, s = t ++ v ∧ utf8 v = q := by
  rw [utf8_eq_map ht] at h
  have hbytes : ∀ b ∈ t.map Char.toUInt8, b.toNat < 128 := by
    intro b hb
    obtain ⟨c, hc, rfl⟩ := List.mem_map.mp hb
    rw [toNat_toUInt8 (ht c hc)]
    exact ht c hc
  obtain ⟨cs, v, rfl, hv, hcs⟩ := exists_of_utf8_eq_append hbytes h.symm
  have hsame : cs = t := by
    refine eq_of_codes (hcs.trans ?_)
    rw [List.map_map]
    exact List.map_congr_left fun c hc => toNat_toUInt8 (ht c hc)
  exact ⟨v, by rw [hsame], hv⟩

/-- A byte of an ASCII character occurs where the character does. -/
theorem mem_of_mem_utf8 (h : b ∈ utf8 s) (hb : b.toNat < 128) : ∃ c ∈ s, c.toNat = b.toNat := by
  obtain ⟨c, hc, hbc⟩ := List.mem_flatMap.mp h
  exact ⟨c, hc, (utf8EncodeChar_eq_of_mem hbc hb).2⟩

theorem mem_utf8_iff (hb : b.toNat < 128) (hc : c.toNat = b.toNat) : b ∈ utf8 s ↔ c ∈ s := by
  constructor
  · intro h
    obtain ⟨d, hd, he⟩ := mem_of_mem_utf8 h hb
    rwa [← Char.toNat_inj.mp (he.trans hc.symm)]
  · intro h
    have hbyte : utf8 [c] = [b] := by
      rw [utf8_eq_map fun d hd => by rw [List.mem_singleton.mp hd]; omega, List.map_singleton]
      refine congrArg (fun b => [b]) (UInt8.toNat_inj.mp ?_)
      show c.toNat % 256 = b.toNat
      omega
    refine List.mem_flatMap.mpr ⟨c, h, ?_⟩
    have : b ∈ utf8 [c] := by rw [hbyte]; exact List.mem_singleton_self b
    simpa [utf8] using this

end Lib
