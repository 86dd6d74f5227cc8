import Mathlib.Data.List.DropRight
import Curf.Lib.Authority
import Curf.Lib.First
import Curf.Lib.UnixPath
import Curf.Lib.Utf8

/-!
# References

A URL or a relative reference is split into its parts at the marks `#`, `?`, `:` and
`/`, byte by byte; `parse_absolute` says how when it begins with a scheme and `//`. The
authority has a host, with user information before the last `@` and a port of digits
after the last `:`.

A reference without a scheme and an authority is resolved against the path it stands
under: `resolvePath`. Paths are worked on in segments, which `slashed` puts together.
-/

namespace Lib

/-- What stands before the first `mark`, and after it if there is one. -/
def cut (mark : UInt8) (s : List UInt8) : List UInt8 × Option (List UInt8) :=
  (s.takeWhile (· ≠ mark), (s.dropWhile (· ≠ mark)).tail?)

structure Reference where
  scheme : Option (List UInt8)
  authority : Option (List UInt8)
  path : List UInt8
  query : Option (List UInt8)
  fragment : Option (List UInt8)
  deriving DecidableEq, Repr

/-- A scheme is followed by a `:` and has no `/`. -/
def splitScheme (s : List UInt8) : Option (List UInt8) × List UInt8 :=
  let name := s.takeWhile fun b => b ≠ 58 && b ≠ 47
  match s.dropWhile fun b => b ≠ 58 && b ≠ 47 with
  | 58 :: rest => if name = [] then (none, s) else (some name, rest)
  | _ => (none, s)

/-- An authority stands between `//` and the next `/`. -/
def splitAuthority : List UInt8 → Option (List UInt8) × List UInt8
  | 47 :: 47 :: s => (some (s.takeWhile (· ≠ 47)), s.dropWhile (· ≠ 47))
  | s => (none, s)

def Reference.parse (s : List UInt8) : Reference :=
  let beforeFragment := cut 35 s
  let beforeQuery := cut 63 beforeFragment.1
  let afterScheme := splitScheme beforeQuery.1
  let afterAuthority := splitAuthority afterScheme.2
  ⟨afterScheme.1, afterAuthority.1, afterAuthority.2, beforeQuery.2, beforeFragment.2⟩

/-- A mark that an authority ends before. -/
def isUriMark (b : UInt8) : Bool := b = 47 || b = 63 || b = 35

/-! ## Hosts and ports -/

/-- Every `%` has two hexadecimal digits after it. -/
def escapesComplete : List Char → Bool
  | [] => true
  | '%' :: a :: b :: s => a.isHexDigit && b.isHexDigit && escapesComplete s
  | c :: s => c ≠ '%' && escapesComplete s

/-- An address of a version that is named in it. -/
def isFutureAddress (s : List Char) : Bool :=
  match s with
  | v :: s =>
    (v = 'v' || v = 'V') && s.takeWhile Char.isHexDigit ≠ [] &&
      match s.dropWhile Char.isHexDigit with
      | '.' :: addr => addr ≠ [] && addr.all fun c => (isNameChar c && c ≠ '%') || c = ':'
      | _ => false
  | [] => false

def isBracketedAddress (s : List Char) : Bool :=
  match s with
  | '[' :: s =>
    s.getLast? = some ']' &&
      ((s.dropLast.all isAddressChar && s.dropLast.contains ':') || isFutureAddress s.dropLast)
  | _ => false

/-- A registered name, an IPv4 address or a bracketed address. -/
def isHost (s : List Char) : Bool := (s.all isNameChar && escapesComplete s) || isBracketedAddress s

/-- The characters of bytes below 256. -/
def charsOf (bs : List UInt8) : List Char := bs.map fun b => Char.ofNat b.toNat

/-- The authority without user information. -/
def hostPort (authority : List UInt8) : List UInt8 := authority.rtakeWhile (· ≠ 64)

/-- The host, and the port after the last `:` if that is one. -/
def splitPort (s : List UInt8) : List UInt8 × Option (List UInt8) :=
  let port := s.rtakeWhile (· ≠ 58)
  if 58 ∈ s ∧ (charsOf port).all Char.isDigit = true then (s.take (s.length - port.length - 1), some port)
  else (s, none)

variable {mark b : UInt8} {s t a name rest : List UInt8}

theorem cut_of_not_mem (h : mark ∉ s) : cut mark s = (s, none) := by
  rw [cut, takeWhile_ne h, List.dropWhile_eq_nil_iff.mpr (ne_of_mem_of_not_mem h)]
  rfl

theorem cut_append (h : mark ∉ s) (t : List UInt8) : cut mark (s ++ t) = (s ++ (cut mark t).1, (cut mark t).2) := by
  rw [cut, takeWhile_ne_append h, dropWhile_ne_append h]
  rfl

theorem cut_mark (h : mark ∉ s) (t : List UInt8) : cut mark (s ++ mark :: t) = (s, some t) := by
  rw [cut_append h]
  simp [cut]

/-- **A reference with a scheme and an authority.** -/
theorem parse_absolute (hne : name ≠ []) (hname : ∀ b ∈ name, b ≠ 58 ∧ isUriMark b = false) (s : List UInt8) :
    Reference.parse (name ++ 58 :: 47 :: 47 :: s) =
      ⟨some name, some (s.takeWhile fun b => !isUriMark b),
        (cut 63 (cut 35 s).1).1.dropWhile (· ≠ 47), (cut 63 (cut 35 s).1).2, (cut 35 s).2⟩ := by
  have hfree (mark : UInt8) (hmark : isUriMark mark = true) : mark ∉ name ++ [58, 47, 47] ∨ mark = 47 := by
    by_cases h47 : mark = 47
    · exact .inr h47
    · refine .inl fun hmem => ?_
      rcases List.mem_append.mp hmem with hmem | hmem
      · rw [(hname mark hmem).2] at hmark
        cases hmark
      · simp only [List.mem_cons, h47, List.not_mem_nil, or_false] at hmem
        subst hmem
        cases hmark
  have h35 : (35 : UInt8) ∉ name ++ [58, 47, 47] := (hfree 35 rfl).resolve_right (by decide)
  have h63 : (63 : UInt8) ∉ name ++ [58, 47, 47] := (hfree 63 rfl).resolve_right (by decide)
  have hscheme : ∀ t, splitScheme (name ++ [58, 47, 47] ++ t) = (some name, 47 :: 47 :: t) := by
    intro t
    have hall : ∀ b ∈ name, (b ≠ 58 && b ≠ 47 : Bool) = true := by
      intro b hb
      obtain ⟨h58, hmark⟩ := hname b hb
      have h47 : b ≠ 47 := by
        rintro rfl
        cases hmark
      simp [h58, h47]
    rw [List.append_assoc, splitScheme, List.takeWhile_append_of_pos hall, List.dropWhile_append_of_pos hall]
    simp [hne]
  have hauthority : (cut 63 (cut 35 s).1).1.takeWhile (· ≠ 47) = s.takeWhile fun b => !isUriMark b := by
    simp only [cut, List.takeWhile_takeWhile]
    refine congrArg (List.takeWhile · s) (funext fun b => ?_)
    simp only [isUriMark, Bool.not_or, Bool.and_assoc, decide_not, Bool.decide_and, Bool.decide_eq_true]
  have hsplit : name ++ 58 :: 47 :: 47 :: s = name ++ [58, 47, 47] ++ s := by simp
  rw [hsplit, Reference.parse, cut_append h35]
  dsimp only
  rw [cut_append h63]
  dsimp only
  rw [hscheme, ← hauthority]
  rfl

theorem hostPort_suffix (a : List UInt8) : hostPort a <:+ a := List.rtakeWhile_suffix _ _

theorem hostPort_of_not_mem (h : 64 ∉ a) : hostPort a = a :=
  List.rtakeWhile_eq_self_iff.mpr (ne_of_mem_of_not_mem h)

theorem at_not_mem_hostPort (a : List UInt8) : 64 ∉ hostPort a := fun h => by
  have := List.mem_rtakeWhile_imp h
  simp at this

theorem splitPort_of_not_mem (h : 58 ∉ s) : splitPort s = (s, none) := if_neg fun hc => h hc.1

/-- The characters of hosts. -/
def isHostChar (c : Char) : Bool := isNameChar c || isAddressChar c || "[]".toList.contains c

theorem isHostChar_of_isAddressChar {c : Char} (h : isAddressChar c = true) : isHostChar c = true := by
  simp [isHostChar, h]

theorem isHostChar_of_isFutureAddress {s : List Char} (h : isFutureAddress s = true) :
    ∀ c ∈ s, isHostChar c = true := by
  cases s with
  | nil => cases h
  | cons v s =>
    simp only [isFutureAddress, Bool.and_eq_true, Bool.or_eq_true, decide_eq_true_eq] at h
    obtain ⟨⟨hv, -⟩, hrest⟩ := h
    have hdot : ∃ addr, s.dropWhile Char.isHexDigit = '.' :: addr ∧
        ∀ c ∈ addr, isNameChar c = true ∧ c ≠ '%' ∨ c = ':' := by
      split at hrest
      · rename_i addr hdrop
        exact ⟨addr, hdrop, by simpa using (Bool.and_eq_true_iff.mp hrest).2⟩
      · cases hrest
    obtain ⟨addr, hdrop, haddr⟩ := hdot
    intro c hc
    rcases List.mem_cons.mp hc with rfl | hc
    · rcases hv with rfl | rfl <;> decide
    · rw [← List.takeWhile_append_dropWhile (p := Char.isHexDigit) (l := s), hdrop] at hc
      rcases List.mem_append.mp hc with hc | hc
      · have hhex := List.mem_takeWhile_imp hc
        exact isHostChar_of_isAddressChar (by simp [isAddressChar, hhex])
      · rcases List.mem_cons.mp hc with rfl | hc
        · decide
        · rcases haddr c hc with ⟨hname, -⟩ | rfl
          · simp [isHostChar, hname]
          · decide

theorem isHostChar_of_isHost {s : List Char} (h : isHost s = true) : ∀ c ∈ s, isHostChar c = true := by
  rcases Bool.or_eq_true_iff.mp h with h | h
  · intro c hc
    have hname := List.all_eq_true.mp (Bool.and_eq_true_iff.mp h).1 c hc
    simp [isHostChar, hname]
  · cases s with
    | nil => exact nofun
    | cons c s =>
      unfold isBracketedAddress at h
      split at h
      · rename_i inner heq
        obtain ⟨rfl, rfl⟩ := List.cons.inj heq
        obtain ⟨hlast, hinner⟩ := Bool.and_eq_true_iff.mp h
        obtain ⟨t, rfl⟩ := List.getLast?_eq_some_iff.mp (of_decide_eq_true hlast)
        rw [List.dropLast_concat] at hinner
        intro d hd
        rcases List.mem_cons.mp hd with rfl | hd
        · decide
        · rcases List.mem_append.mp hd with hd | hd
          · rcases Bool.or_eq_true_iff.mp hinner with hinner | hinner
            · exact isHostChar_of_isAddressChar (List.all_eq_true.mp (Bool.and_eq_true_iff.mp hinner).1 d hd)
            · exact isHostChar_of_isFutureAddress hinner d hd
          · obtain rfl := List.mem_singleton.mp hd
            decide
      · cases h

/-! ## Bytes and characters -/

theorem charsOf_utf8 {s : List Char} (hs : ∀ c ∈ s, c.toNat < 128) : charsOf (utf8 s) = s := by
  rw [charsOf, utf8_eq_map hs, List.map_map]
  refine (List.map_congr_left fun c hc => ?_).trans (List.map_id s)
  rw [Function.comp_apply, toNat_toUInt8 (hs c hc), Char.ofNat_toNat, id]

theorem mem_charsOf {c : Char} (h : c ∈ charsOf s) : ∃ b ∈ s, b.toNat = c.toNat := by
  obtain ⟨b, hb, rfl⟩ := List.mem_map.mp h
  exact ⟨b, hb, (toNat_ofNat_byte b).symm⟩

/-- A character of a host can be seen and ends no authority. -/
theorem visible_of_isHostChar {c : Char} (h : isHostChar c = true) :
    Visible c ∧ c ≠ '/' ∧ c ≠ '?' ∧ c ≠ '#' ∧ c ≠ '@' := by
  constructor
  · rcases Bool.or_eq_true_iff.mp h with h | h
    · rcases Bool.or_eq_true_iff.mp h with h | h
      · exact (visible_of_isNameChar h).1
      · exact visible_of_isAddressChar h
    · have hmem : c = '[' ∨ c = ']' := by simpa using h
      rcases hmem with rfl | rfl <;> decide
  · refine ⟨?_, ?_, ?_, ?_⟩ <;> rintro rfl <;> exact absurd h (by decide)

/-! ## Paths in segments -/

/-- The segments, each behind a slash. -/
def slashed (ss : List (List UInt8)) : List UInt8 := ss.flatMap fun s => 47 :: s

/-- What stands behind the slashes of a path. -/
def segmentsOf (path : List UInt8) : List (List UInt8) := (path.splitOn 47).tail

/-- A segment before the last one: `.` is passed over and `..` takes the segment before it. -/
def keepSegment (out : List (List UInt8)) (s : List UInt8) : List (List UInt8) :=
  if s = [46] then out else if s = [46, 46] then out.dropLast else out ++ [s]

/-- The segments that are kept of those before the last one. -/
def kept (ss : List (List UInt8)) : List (List UInt8) := ss.foldl keepSegment []

/-- The last segment, of which `.` and `..` leave the slash before them. -/
def keepLast (out : List (List UInt8)) (s : List UInt8) : List (List UInt8) :=
  if s = [46] then out ++ [[]] else if s = [46, 46] then out.dropLast ++ [[]] else out ++ [s]

/-- A path that begins with a slash, without its dot segments. -/
def removeDotSegments (path : List UInt8) : List UInt8 :=
  slashed (keepLast (kept (segmentsOf path).dropLast) ((segmentsOf path).getLastD []))

/-- The base path up to its last slash, and the reference after it. -/
def mergePath (base path : List UInt8) : List UInt8 :=
  if base = [] then 47 :: path else base.rdropWhile (· ≠ 47) ++ path

/-- The path that a reference on the page with the path `base` leads to, if it does not
name another server. -/
def resolvePath (base ref : List UInt8) : Option (List UInt8) :=
  let r := Reference.parse ref
  if r.scheme.isSome || r.authority.isSome then none
  else if r.path = [] then some base
  else if r.path.head? = some 47 then some (removeDotSegments r.path)
  else some (removeDotSegments (mergePath base r.path))

variable {ss ts : List (List UInt8)} {path base : List UInt8}

@[simp] theorem slashed_append (ss ts : List (List UInt8)) : slashed (ss ++ ts) = slashed ss ++ slashed ts :=
  List.flatMap_append

@[simp] theorem slashed_singleton (s : List UInt8) : slashed [s] = 47 :: s := by simp [slashed]

theorem slashed_replicate (n : Nat) : slashed (List.replicate n []) = List.replicate n 47 := by
  induction n with
  | zero => rfl
  | succ n ih =>
    rw [List.replicate_succ, List.replicate_succ, ← ih]
    rfl

@[simp] theorem kept_append (ss ts : List (List UInt8)) : kept (ss ++ ts) = ts.foldl keepSegment (kept ss) :=
  List.foldl_append

theorem intercalate_eq_slashed (s : List UInt8) (ss : List (List UInt8)) :
    [47].intercalate (s :: ss) = s ++ slashed ss := by
  induction ss generalizing s with
  | nil => simp [slashed, List.intercalate]
  | cons t ss ih =>
    rw [List.intercalate_cons_cons, ih t]
    simp [slashed]

/-- A path is its segments behind slashes. -/
theorem slashed_segmentsOf (h : path = [] ∨ path.head? = some 47) : slashed (segmentsOf path) = path := by
  rcases h with rfl | h
  · rfl
  · obtain ⟨x, rfl⟩ := List.head?_eq_some_iff.mp h
    have hsplit : (47 :: x).splitOn (47 : UInt8) = [] :: segmentsOf (47 :: x) := by
      rw [segmentsOf, List.splitOn_cons_eq_if_modifyHead]
      simp
    have hjoin : [47].intercalate ((47 :: x).splitOn (47 : UInt8)) = 47 :: x := List.intercalate_splitOn 47
    rwa [hsplit, intercalate_eq_slashed] at hjoin

theorem segmentsOf_slashed (h : ∀ s ∈ ss, 47 ∉ s) : segmentsOf (slashed ss) = ss := by
  have hsplit : ([47].intercalate ([] :: ss)).splitOn (47 : UInt8) = [] :: ss :=
    List.splitOn_intercalate 47 (by simpa using h) (List.cons_ne_nil _ _)
  rw [intercalate_eq_slashed, List.nil_append] at hsplit
  rw [segmentsOf, hsplit]
  rfl

theorem segmentsOf_slashed_append (h : ∀ s ∈ ss, 47 ∉ s) (t : List UInt8) :
    segmentsOf (slashed ss ++ 47 :: t) = ss ++ t.splitOn 47 := by
  have hfirst : (slashed ss).splitOn (47 : UInt8) ≠ [] := List.splitOn_ne_nil _ _
  rw [segmentsOf, List.splitOn_append_cons_self, List.tail_append_of_ne_nil hfirst]
  exact congrArg (· ++ t.splitOn 47) (segmentsOf_slashed h)

/-- A segment has no slash. -/
theorem slash_not_mem_segment (h : s ∈ segmentsOf path) : 47 ∉ s :=
  (UnixPath.of_mem_splitOn (List.mem_of_mem_tail h)).1

/-- **The dot segments of a path** are removed from the segments before the last one, and
from the last. -/
theorem removeDotSegments_slashed (h : ∀ s ∈ ss, 47 ∉ s) (ha : 47 ∉ a) :
    removeDotSegments (slashed (ss ++ [a])) = slashed (keepLast (kept ss) a) := by
  have hall : ∀ s ∈ ss ++ [a], 47 ∉ s := by
    intro s hs
    rcases List.mem_append.mp hs with hs | hs
    · exact h s hs
    · rwa [List.mem_singleton.mp hs]
  rw [removeDotSegments, segmentsOf_slashed hall, List.dropLast_concat, List.getLastD_concat]

/-- Without dot segments all segments are kept. -/
theorem kept_eq (h : ∀ s ∈ ss, s ≠ [46] ∧ s ≠ [46, 46]) : kept ss = ss := by
  have hall : ∀ out, ss.foldl keepSegment out = out ++ ss := by
    induction ss with
    | nil => exact fun out => (List.append_nil out).symm
    | cons s ss ih =>
      intro out
      obtain ⟨h1, h2⟩ := h s List.mem_cons_self
      rw [List.foldl_cons, keepSegment, if_neg h1, if_neg h2, ih fun s hs => h s (List.mem_cons_of_mem _ hs)]
      simp
  exact hall []

theorem mem_of_mem_kept {s : List UInt8} (h : s ∈ kept ss) : s ∈ ss := by
  induction ss using List.reverseRecOn with
  | nil => cases h
  | append_singleton ss t ih =>
    rw [kept_append, List.foldl_cons, List.foldl_nil, keepSegment] at h
    split at h
    · exact List.mem_append_left _ (ih h)
    · split at h
      · exact List.mem_append_left _ (ih (List.mem_of_mem_dropLast h))
      · rcases List.mem_append.mp h with h | h
        · exact List.mem_append_left _ (ih h)
        · exact List.mem_append_right _ h

/-! ## References to paths -/

/-- The path of a reference, up to the first `?` or `#`. -/
def pathPart (ref : List UInt8) : List UInt8 := (ref.takeWhile (· ≠ 35)).takeWhile (· ≠ 63)

theorem parse_slash (s : List UInt8) : Reference.parse (47 :: s) =
    ⟨none, (splitAuthority (pathPart (47 :: s))).1, (splitAuthority (pathPart (47 :: s))).2,
      (cut 63 (cut 35 (47 :: s)).1).2, (cut 35 (47 :: s)).2⟩ := by
  have hpath : (cut 63 (cut 35 (47 :: s)).1).1 = pathPart (47 :: s) := rfl
  have hscheme : splitScheme (pathPart (47 :: s)) = (none, pathPart (47 :: s)) := by
    have hhead : pathPart (47 :: s) = 47 :: pathPart s := by simp [pathPart]
    rw [hhead, splitScheme]
    simp
  rw [Reference.parse]
  simp only [hpath, hscheme]

theorem prefix_pathPart (ref : List UInt8) : pathPart ref <+: ref :=
  (List.takeWhile_prefix _).trans (List.takeWhile_prefix _)

theorem splitAuthority_slash (h : s.head? ≠ some 47) : splitAuthority (47 :: s) = (none, 47 :: s) := by
  cases s with
  | nil => rfl
  | cons b s =>
    have hb : b ≠ 47 := by simpa using h
    unfold splitAuthority
    split
    · rename_i heq
      exact absurd (List.cons.inj (List.cons.inj heq).2).1 hb
    · rfl

/-- A reference that begins with one slash is a path. -/
theorem resolvePath_slash (base : List UInt8) (h : s.head? ≠ some 47) :
    resolvePath base (47 :: s) = some (removeDotSegments (pathPart (47 :: s))) := by
  have hhead : pathPart (47 :: s) = 47 :: pathPart s := by simp [pathPart]
  have hpart : (pathPart s).head? ≠ some 47 := by
    intro he
    obtain ⟨y, hy⟩ := List.head?_eq_some_iff.mp he
    obtain ⟨z, hz⟩ := prefix_pathPart s
    rw [hy] at hz
    exact h (hz ▸ rfl)
  unfold resolvePath
  rw [parse_slash, hhead, splitAuthority_slash hpart]
  simp

/-- A reference that begins with two slashes names a server. -/
theorem resolvePath_slashes (base s : List UInt8) : resolvePath base (47 :: 47 :: s) = none := by
  have hhead : pathPart (47 :: 47 :: s) = 47 :: 47 :: pathPart s := by simp [pathPart]
  unfold resolvePath
  rw [parse_slash, hhead]
  rfl

theorem pathPart_of_not_mem (h63 : 63 ∉ s) (h35 : 35 ∉ s) : pathPart s = s := by
  rw [pathPart, takeWhile_ne h35, takeWhile_ne h63]

theorem pathPart_append (h63 : 63 ∉ s) (h35 : 35 ∉ s) (t : List UInt8) : pathPart (s ++ t) = s ++ pathPart t := by
  rw [pathPart, takeWhile_ne_append h35, takeWhile_ne_append h63, pathPart]

/-- **The reference `../`** leads to the segments before the last slash but the last of them. -/
theorem resolvePath_parent (h : ∀ s ∈ ss, 47 ∉ s) (ha : 47 ∉ a) :
    resolvePath (slashed (ss ++ [a])) [46, 46, 47] = some (slashed ((kept ss).dropLast ++ [[]])) := by
  have hparse : Reference.parse [46, 46, 47] = ⟨none, none, [46, 46, 47], none, none⟩ := by decide
  have hbase : slashed (ss ++ [a]) = slashed ss ++ 47 :: a := by simp
  have hmerge : mergePath (slashed (ss ++ [a])) [46, 46, 47] = slashed (ss ++ [[46, 46]] ++ [[]]) := by
    have hall : ∀ b ∈ a.reverse, decide (b ≠ 47) = true := by
      intro b hb
      refine decide_eq_true ?_
      rintro rfl
      exact ha (List.mem_reverse.mp hb)
    have hdrop : (slashed ss ++ 47 :: a).rdropWhile (· ≠ 47) = slashed ss ++ [47] := by
      rw [List.rdropWhile, List.reverse_append, List.reverse_cons, List.append_assoc,
        List.dropWhile_append_of_pos hall]
      simp
    rw [mergePath, hbase, if_neg (by simp), hdrop]
    simp [slashed]
  have hall : ∀ s ∈ ss ++ [[46, 46]], 47 ∉ s := by
    intro s hs
    rcases List.mem_append.mp hs with hs | hs
    · exact h s hs
    · rw [List.mem_singleton.mp hs]
      decide
  have hresolve : resolvePath (slashed (ss ++ [a])) [46, 46, 47] =
      some (removeDotSegments (mergePath (slashed (ss ++ [a])) [46, 46, 47])) := by
    unfold resolvePath
    rw [hparse]
    rfl
  rw [hresolve, hmerge, removeDotSegments_slashed hall (by decide), kept_append]
  rfl

end Lib
