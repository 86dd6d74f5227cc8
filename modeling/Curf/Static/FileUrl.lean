import Mathlib.Data.List.Basic
import Curf.Lib.Lowercase
import Curf.Lib.Utf8
import Curf.Static.SafePath

/-!
# The URL of a file

A file below the root is named in a URL by percent-encoding the names on the way to it.
`safe_path` decodes the whole path before it looks for the `?` of a query, so that an
encoded `?` cuts the path off as well: `mapsBack_iff` says which files have a URL that
leads back to them.
-/

namespace Curf

open Lib Lib.UnixPath

/-! ## Percent-encoding -/

/-- The characters that a URL shows as they are: letters, digits and `-._~`. -/
def unreserved (b : UInt8) : Bool :=
  (65 ≤ b && b ≤ 90) || (97 ≤ b && b ≤ 122) || (48 ≤ b && b ≤ 57) || b = 45 || b = 46 || b = 95 || b = 126

/-- A hexadecimal digit. -/
def hexChar (n : UInt8) : UInt8 := if n < 10 then 48 + n else 55 + n

def percentEncodeByte (b : UInt8) : Bytes :=
  if unreserved b then [b] else [37, hexChar (b / 16), hexChar (b % 16)]

def percentEncode (bs : Bytes) : Bytes := bs.flatMap percentEncodeByte

/-- The names, each percent-encoded, behind slashes. -/
def fileUrl (names : List Bytes) : Bytes := 47 :: [47].intercalate (names.map percentEncode)

/-- What is relied on of `percent_decode_str`: `%` and two hexadecimal digits stand for a
byte, and another character for itself. -/
structure DecodesPercent (percentDecode : Bytes → Bytes) : Prop where
  nil : percentDecode [] = []
  escape : ∀ a b x y bs, StaticFileServer.hexDigit a = some x → StaticFileServer.hexDigit b = some y →
    percentDecode (37 :: a :: b :: bs) = (16 * x + y) :: percentDecode bs
  other : ∀ b bs, b ≠ 37 → percentDecode (b :: bs) = b :: percentDecode bs

theorem decodesPercent_decodePercent : DecodesPercent StaticFileServer.decodePercent where
  nil := rfl
  escape a b x y bs ha hb := by
    rw [StaticFileServer.decodePercent, ha, hb]
  other b bs hb := by
    rw [StaticFileServer.decodePercent]
    rintro a c bs rfl
    exact absurd rfl hb

variable {percentDecode : Bytes → Bytes} {bs rest : Bytes} {b : UInt8}

theorem hexDigit_hexChar {n : UInt8} (h : n < 16) : StaticFileServer.hexDigit (hexChar n) = some n := by
  have hn : n.toNat < 16 := UInt8.lt_iff_toNat_lt.mp h
  have hall : ∀ k < 16, StaticFileServer.hexDigit (hexChar (UInt8.ofNat k)) = some (UInt8.ofNat k) := by decide
  have hdigit := hall n.toNat hn
  rwa [UInt8.ofNat_toNat] at hdigit

theorem digits_lt (b : UInt8) : b / 16 < 16 ∧ b % 16 < 16 := by
  have := b.toNat_lt
  simp only [UInt8.lt_iff_toNat_lt, UInt8.toNat_div, UInt8.toNat_mod, UInt8.reduceToNat]
  omega

theorem digits_eq (b : UInt8) : 16 * (b / 16) + b % 16 = b := by
  rw [← UInt8.toNat_inj]
  have := b.toNat_lt
  simp
  omega

/-- An encoded byte is decoded. -/
theorem DecodesPercent.encodeByte (hd : DecodesPercent percentDecode) (b : UInt8) (rest : Bytes) :
    percentDecode (percentEncodeByte b ++ rest) = b :: percentDecode rest := by
  unfold percentEncodeByte
  split
  · rename_i hu
    refine hd.other b rest ?_
    rintro rfl
    exact absurd hu (by decide)
  · have hdec := hd.escape _ _ _ _ rest (hexDigit_hexChar (digits_lt b).1) (hexDigit_hexChar (digits_lt b).2)
    rw [digits_eq] at hdec
    exact hdec

/-- **Decoding undoes encoding.** -/
theorem DecodesPercent.encode (hd : DecodesPercent percentDecode) (bs rest : Bytes) :
    percentDecode (percentEncode bs ++ rest) = bs ++ percentDecode rest := by
  induction bs with
  | nil => rfl
  | cons b bs ih =>
    rw [percentEncode, List.flatMap_cons, List.append_assoc, hd.encodeByte]
    exact congrArg _ ih

theorem DecodesPercent.intercalate (hd : DecodesPercent percentDecode) (names : List Bytes) :
    percentDecode ([47].intercalate (names.map percentEncode)) = [47].intercalate names := by
  induction names with
  | nil => exact hd.nil
  | cons name names ih =>
    cases names with
    | nil =>
      have := hd.encode name []
      simpa [List.intercalate, hd.nil] using this
    | cons name' names =>
      rw [List.map_cons, List.map_cons, List.intercalate_cons_cons, List.intercalate_cons_cons, List.append_assoc,
        hd.encode, List.singleton_append, hd.other 47 _ (by decide), List.append_assoc]
      exact congrArg (fun x => name ++ 47 :: x) ih

/-- The URL of a file is decoded to its path below the root. -/
theorem DecodesPercent.fileUrl (hd : DecodesPercent percentDecode) (names : List Bytes) :
    percentDecode (fileUrl names) = 47 :: [47].intercalate names := by
  rw [Curf.fileUrl, hd.other 47 _ (by decide), hd.intercalate]

/-! ## File names -/

/-- What can be the name of a file. -/
structure FileName (name : Text) : Prop where
  ne_nil : name ≠ []
  no_slash : '/' ∉ name
  ne_dot : name ≠ ".".toList
  ne_dots : name ≠ "..".toList

theorem FileName.isName {name : Text} (h : FileName name) : IsName (utf8 name) := by
  constructor
  · intro hmem
    obtain ⟨c, hc, he⟩ := mem_of_mem_utf8 hmem (by decide)
    have hslash : c = '/' := Char.toNat_inj.mp he
    exact h.no_slash (hslash ▸ hc)
  · have hdot : utf8 name ≠ [dot] := fun he =>
      h.ne_dot (eq_of_utf8_eq (by simp) (by decide) (show utf8 name = [46] from he))
    have hdots : utf8 name ≠ [dot, dot] := fun he =>
      h.ne_dots (eq_of_utf8_eq (by simp) (by decide) (show utf8 name = [46, 46] from he))
    have hnil : utf8 name ≠ [] := fun he => h.ne_nil (utf8_eq_nil he)
    unfold single
    rw [if_neg (not_or.mpr ⟨hnil, hdot⟩), if_neg hdots]

theorem utf8_intercalate (names : List Text) :
    utf8 (['/'].intercalate names) = [47].intercalate (names.map utf8) := by
  induction names with
  | nil => rfl
  | cons name names ih =>
    cases names with
    | nil => simp [List.intercalate]
    | cons name' names =>
      rw [List.map_cons, List.map_cons, List.intercalate_cons_cons, List.intercalate_cons_cons, utf8,
        List.flatMap_append, List.flatMap_append]
      exact congrArg (fun x => utf8 name ++ [47] ++ x) ih

theorem question_not_mem_intercalate {names : List Text} (h : ∀ name ∈ names, '?' ∉ name) :
    '?' ∉ '/' :: ['/'].intercalate names := by
  induction names with
  | nil => decide
  | cons name names ih =>
    have hname := h name List.mem_cons_self
    have hrest := ih fun n hn => h n (List.mem_cons_of_mem _ hn)
    cases names with
    | nil => simpa [List.intercalate] using hname
    | cons name' names =>
      rw [List.intercalate_cons_cons]
      simp only [List.mem_cons, List.mem_append, List.not_mem_nil, or_false, not_or] at hrest ⊢
      exact ⟨by decide, ⟨hname, by decide⟩, hrest.2⟩

/-- The names of a path below the root are its components. -/
theorem components_intercalate {names : List Bytes} (hnames : ∀ name ∈ names, IsName name) :
    components (47 :: [47].intercalate names) = .rootDir :: names.map .normal := by
  have hsplit : (([47].intercalate names).splitOn 47).filterMap single = names.map .normal := by
    cases names with
    | nil => rfl
    | cons name names =>
      rw [List.splitOn_intercalate 47 (fun s hs => (hnames s hs).no_sep) (List.cons_ne_nil _ _),
        ← List.filterMap_eq_map]
      exact List.filterMap_congr fun s hs => (hnames s hs).single_eq
  exact (components_sep_cons _).trans (congrArg _ hsplit)

/-- A path of names is walked down. -/
theorem resolve_names (names : List Bytes) (result : Bytes) :
    resolve (names.map .normal) result = some (names.foldl push result) := by
  induction names generalizing result with
  | nil => rfl
  | cons name names ih => exact ih (push result name)

theorem components_foldl_push {names : List Bytes} (hnames : ∀ name ∈ names, IsName name) (root : Bytes) :
    components (names.foldl push root) = components root ++ names.map .normal := by
  induction names generalizing root with
  | nil => simp
  | cons name names ih =>
    rw [List.foldl_cons, ih (fun n hn => hnames n (List.mem_cons_of_mem _ hn)),
      components_push root (hnames name List.mem_cons_self), List.append_assoc]
    rfl

namespace StaticFileServer

variable {sf : StaticFileServer} {names : List Bytes} {p : Bytes}

/-- The URL of a file leads back to it: to a path with the components of the root joined
with the names. -/
def MapsBack (percentDecode : Bytes → Bytes) (sf : StaticFileServer) (names : List Bytes) : Prop :=
  ∃ p, sf.safePath percentDecode (fileUrl names) = some p ∧ components p = components (names.foldl push sf.root)

/-- Nothing of what is behind a `?` is in the path that `safe_path` goes along. -/
theorem question_not_mem_name {name urlPath : Bytes}
    (h : .normal name ∈ components (cleanPath percentDecode urlPath)) : 63 ∉ name := by
  intro hmem
  have hclean := mem_of_mem_name hmem h
  have hall := List.all_eq_true.mp
    (List.all_takeWhile (p := fun b : UInt8 => decide (b ≠ 63)) (l := percentDecode urlPath))
  exact of_decide_eq_true (hall 63 hclean) rfl

/-- So no file with one in its name is come by. -/
theorem question_not_mem_of_safePath {urlPath : Bytes} (hp : sf.safePath percentDecode urlPath = some p)
    (hc : components p = components sf.root ++ names.map .normal) : ∀ name ∈ names, 63 ∉ name := by
  have hwithin := withinBy_resolve (P := fun name => 63 ∉ name)
    (fun part hpart => ⟨isName_of_mem_components hpart, question_not_mem_name hpart⟩)
    (withinBy_self _ sf.root) (safePath_eq_some_iff.mp hp).2.1
  exact hwithin.names hc

theorem isName_of_fileName {names : List Text} (hnames : ∀ name ∈ names, FileName name) :
    ∀ name ∈ names.map utf8, IsName name := by
  intro name hname
  obtain ⟨name', hname', rfl⟩ := List.mem_map.mp hname
  exact (hnames name' hname').isName

/-- A path without `?` is resolved as it is. -/
theorem safePath_fileUrl (hd : DecodesPercent percentDecode) {names : List Text}
    (hnames : ∀ name ∈ names, FileName name) (hquestion : ∀ name ∈ names, '?' ∉ name) :
    sf.safePath percentDecode (fileUrl (names.map utf8)) = some ((names.map utf8).foldl push sf.root) := by
  have hdec := hd.fileUrl (names.map utf8)
  have htext : percentDecode (fileUrl (names.map utf8)) = utf8 ('/' :: ['/'].intercalate names) := by
    rw [hdec, ← utf8_intercalate]
    rfl
  have hutf : (percentDecode (fileUrl (names.map utf8))).isUtf8 = true := by
    rw [htext]
    exact ByteArray.validateUTF8_eq_true_iff.mpr ⟨_, rfl⟩
  have hnames' := isName_of_fileName hnames
  have hclean : cleanPath percentDecode (fileUrl (names.map utf8)) = 47 :: [47].intercalate (names.map utf8) :=
    (cleanPath_of_text htext (question_not_mem_intercalate hquestion)).trans (htext.symm.trans hdec)
  have hcomps := components_intercalate hnames'
  have hstarts : startsWith ((names.map utf8).foldl push sf.root) sf.root = true := by
    rw [startsWith_iff, components_foldl_push hnames']
    exact List.prefix_append _ _
  simp only [safePath, hutf, Bool.true_eq_false, if_false, hclean, hcomps]
  simp only [resolve, resolve_names, hstarts, if_true]

/-- **Which files have a working URL.** The URL of a file leads back to it exactly when
no name on the way has a `?`; then it gives the root joined with the names. -/
theorem mapsBack_iff (hd : DecodesPercent percentDecode) (sf : StaticFileServer) (names : List Text)
    (hnames : ∀ name ∈ names, FileName name) :
    (sf.MapsBack percentDecode (names.map utf8) ↔ ∀ name ∈ names, '?' ∉ name) ∧
      ((∀ name ∈ names, '?' ∉ name) → sf.safePath percentDecode (fileUrl (names.map utf8)) =
        some ((names.map utf8).foldl push sf.root)) := by
  refine ⟨⟨fun h name hname hmem => ?_, fun h => ⟨_, safePath_fileUrl hd hnames h, rfl⟩⟩,
    safePath_fileUrl hd hnames⟩
  obtain ⟨p, hp, hc⟩ := h
  have hnames' := isName_of_fileName hnames
  rw [components_foldl_push hnames'] at hc
  have hbyte : (63 : UInt8) ∈ utf8 name := List.mem_flatMap.mpr ⟨'?', hmem, by decide⟩
  exact question_not_mem_of_safePath hp hc _ (List.mem_map_of_mem hname) hbyte

/-- A percent sign and a backslash come back. -/
theorem mapsBack_percent :
    StaticFileServer.MapsBack decodePercent ⟨"/srv".toUTF8.data.toList, [], false⟩
      (["100%".toList, "a\\b #".toList].map utf8) :=
  (mapsBack_iff decodesPercent_decodePercent ⟨"/srv".toUTF8.data.toList, [], false⟩
    ["100%".toList, "a\\b #".toList] (by
      rintro name (_ | ⟨_, _ | ⟨_, ⟨⟩⟩⟩) <;> exact ⟨by decide, by decide, by decide, by decide⟩)).1.mpr (by decide)

/-- **A question mark in a name.** The URL of `a?b` leads to `a`. -/
theorem question_file_missed :
    ¬ ∀ (sf : StaticFileServer) (names : List Text), names ≠ [] → (∀ name ∈ names, FileName name) →
      sf.MapsBack decodePercent (names.map utf8) := by
  intro h
  obtain ⟨p, hp, hc⟩ := h ⟨"/srv".toUTF8.data.toList, [], false⟩ ["a?b".toList] (by decide) (by
    intro name hname
    obtain rfl := List.mem_singleton.mp hname
    exact ⟨by decide, by decide, by decide, by decide⟩)
  have hresult : StaticFileServer.safePath decodePercent ⟨"/srv".toUTF8.data.toList, [], false⟩
      (fileUrl (["a?b".toList].map utf8)) = some "/srv/a".toUTF8.data.toList := by decide
  rw [hresult] at hp
  obtain rfl := Option.some.inj hp
  exact absurd hc (by decide)

end StaticFileServer

end Curf
