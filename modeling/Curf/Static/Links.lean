import Curf.Static.DecodedPath
import Curf.Static.Markup

/-!
# The links of a listing

The links of a listing are the URL path, a slash and the name of the entry, and `../`. A
browser reads what stands in the attribute, where `&amp;` is a `&` and `\` a slash, and
resolves it against the URL path, which takes dot segments away and cuts the link off at a
`?` or `#`; `safe_path` decodes what is left. `LinksGood.linksLead` says when the links lead
to the entries and to the parent directory.
-/

namespace Curf

open Lib Lib.UnixPath

namespace StaticFileServer

/-! ## Where links lead -/

/-- The link of an entry: what stands between the first two quotes of its line. -/
def hrefOf (base : Bytes) (entry : Text × Bool) : Bytes :=
  ((listingLine base entry).drop (Bytes.ofString "<a href=\"").length).takeWhile (· ≠ 34)

/-- What is relied on of a browser that reads the value of an attribute as a reference: only
character references, backslashes, spaces and control characters are read otherwise than
they are written. -/
structure ReadsHref (read : Bytes → Bytes) : Prop where
  keep : ∀ x : Bytes, x.isUtf8 = true → (∀ b ∈ x, 32 < b.toNat ∧ b ≠ 38 ∧ b ≠ 92) → read x = x

/-- A link on the page `urlPath`, as it is read, leads to `path`. -/
def LeadsTo (percentDecode : Bytes → Bytes) (sf : StaticFileServer) (urlPath href path : Bytes) : Prop :=
  ∃ target p, resolvePath urlPath href = some target ∧ sf.safePath percentDecode target = some p ∧
    components p = components path

/-- The links of the listing of `dir` lead to the entries and to the parent directory. -/
structure LinksLead (percentDecode read : Bytes → Bytes) (sf : StaticFileServer) (fs : FileSystem)
    (urlPath dir : Bytes) : Prop where
  entries : ∀ entry ∈ fs.readDir dir,
    LeadsTo percentDecode sf urlPath (read (hrefOf (trimEndSlashes urlPath) entry)) (push dir (utf8 entry.1))
  parent : trimEndSlashes urlPath ≠ [] →
    ∃ up, UnixPath.parent dir = some up ∧ LeadsTo percentDecode sf urlPath (read (Bytes.ofString "../")) up

/-! ## When they do -/

/-- What a browser keeps of the URL path in front of the names of the entries. -/
def directoryPath (urlPath : Bytes) : Bytes := slashed (kept (segmentsOf (trimEndSlashes urlPath)) ++ [[]])

/-- What it keeps without the last two segments. -/
def parentPath (urlPath : Bytes) : Bytes := slashed ((kept (segmentsOf urlPath).dropLast).dropLast ++ [[]])

/-- The URL path can stand in front of a name in a link. -/
structure Straight (percentDecode : Bytes → Bytes) (urlPath : Bytes) : Prop where
  quote : 34 ∉ trimEndSlashes urlPath
  server : ¬ [47, 47] <+: trimEndSlashes urlPath
  question : 63 ∉ percentDecode (directoryPath urlPath)

/-- The name is read as it is written. -/
structure PlainName (percentDecode : Bytes → Bytes) (name : Text) : Prop where
  quote : '"' ∉ name
  question : '?' ∉ name
  hash : '#' ∉ name
  escape : percentDecode (utf8 name) = utf8 name

/-- The last two segments have one name, and the directory is not the root. -/
def OneBelow (percentDecode : Bytes → Bytes) (sf : StaticFileServer) (urlPath dir : Bytes) : Prop :=
  components dir ≠ components sf.root ∧ ∃ name,
    components (cleanPath percentDecode (directoryPath urlPath)) =
      components (cleanPath percentDecode (parentPath urlPath)) ++ [.normal name]

/-- A browser comes back to the directory, and what stands in the links is read as it is written. -/
structure LinksGood (percentDecode read : Bytes → Bytes) (sf : StaticFileServer) (fs : FileSystem)
    (urlPath dir : Bytes) : Prop where
  directory : ∃ p, sf.safePath percentDecode (directoryPath urlPath) = some p ∧ components p = components dir
  straight : fs.readDir dir = [] ∨ Straight percentDecode urlPath
  names : ∀ entry ∈ fs.readDir dir, PlainName percentDecode entry.1
  read : ∀ entry ∈ fs.readDir dir,
    read (linkOf (trimEndSlashes urlPath) entry) = linkOf (trimEndSlashes urlPath) entry
  parent : trimEndSlashes urlPath = [] ∨ OneBelow percentDecode sf urlPath dir

variable {percentDecode read : Bytes → Bytes} {sf : StaticFileServer} {fs : FileSystem} {urlPath dir k x y p : Bytes}
  {entry : Text × Bool} {ss : List Bytes} {b : UInt8} {name : Text}

/-- The link ends at its first quote. -/
theorem hrefOf_eq_takeWhile (base : Bytes) (entry : Text × Bool) :
    hrefOf base entry = (linkOf base entry).takeWhile (· ≠ 34) := by
  rw [hrefOf, listingLine_eq, List.append_assoc, List.drop_left, List.append_assoc, List.takeWhile_append]
  split
  · rename_i hlen
    have hall := (List.takeWhile_prefix fun b : UInt8 => decide (b ≠ 34)).eq_of_length hlen
    rw [hall, List.singleton_append, List.takeWhile_cons_of_neg (by decide), List.append_nil]
  · rfl

theorem hrefOf_eq_linkOf {base : Bytes} (h : 34 ∉ linkOf base entry) : hrefOf base entry = linkOf base entry := by
  rw [hrefOf_eq_takeWhile, takeWhile_ne h]

theorem ReadsHref.parent (hr : ReadsHref read) : read (Bytes.ofString "../") = Bytes.ofString "../" := by
  have hdots : Bytes.ofString "../" = [46, 46, 47] := by decide
  rw [hdots]
  exact hr.keep _ (isUtf8_iff.mpr ⟨"../".toList, by decide⟩) (by simp)

/-! ## Resolving the links -/

/-- A link that stays on the server is its path, without dot segments. -/
theorem resolvePath_link (hhead : urlPath.head? = some 47) (h63 : 63 ∉ urlPath) (h35 : 35 ∉ urlPath)
    (hserver : ¬ [47, 47] <+: trimEndSlashes urlPath) (hx : x.head? ≠ some 47) :
    resolvePath urlPath (trimEndSlashes urlPath ++ 47 :: x) =
      some (removeDotSegments (trimEndSlashes urlPath ++ 47 :: pathPart x)) := by
  have hq := not_mem_trimEndSlashes h63
  have hf := not_mem_trimEndSlashes h35
  have hpart : pathPart (trimEndSlashes urlPath ++ 47 :: x) = trimEndSlashes urlPath ++ 47 :: pathPart x := by
    rw [pathPart_append hq hf]
    exact congrArg _ (@pathPart_append [47] (by decide) (by decide) x)
  rw [← hpart]
  rcases head?_trimEndSlashes hhead with hnil | hslash
  · rw [hnil, List.nil_append]
    exact resolvePath_slash urlPath hx
  · obtain ⟨t, ht⟩ := List.head?_eq_some_iff.mp hslash
    rw [ht, List.cons_append]
    refine resolvePath_slash urlPath fun he => ?_
    cases t with
    | nil => exact trimEndSlashes_ne_concat urlPath [] ht
    | cons c t =>
      obtain rfl : c = 47 := by simpa using he
      exact hserver ⟨t, ht.symm⟩

/-- The path that a link without dot segments of its own leads to. -/
theorem removeDotSegments_link (hhead : urlPath.head? = some 47) (hx : 47 ∉ x) :
    removeDotSegments (trimEndSlashes urlPath ++ 47 :: x) =
      slashed (keepLast (kept (segmentsOf (trimEndSlashes urlPath))) x) := by
  have hbase := slashed_segmentsOf (head?_trimEndSlashes hhead)
  have hlink : trimEndSlashes urlPath ++ 47 :: x = slashed (segmentsOf (trimEndSlashes urlPath) ++ [x]) := by
    rw [slashed_append, hbase, slashed_singleton]
  rw [hlink, removeDotSegments_slashed (fun _ => slash_not_mem_segment) hx]

theorem FileName.not_dots (h : FileName name) : 47 ∉ utf8 name ∧ utf8 name ≠ [46] ∧ utf8 name ≠ [46, 46] := by
  refine ⟨h.isName.no_sep, fun he => ?_, fun he => ?_⟩
  · exact h.ne_dot (eq_of_utf8_eq (by simp) (by decide) he)
  · exact h.ne_dots (eq_of_utf8_eq (by simp) (by decide) he)

theorem listedName_false (h : entry.2 = false) : listedName entry = utf8 entry.1 := by
  rw [listedName, h]
  exact List.append_nil _

theorem listedName_true (h : entry.2 = true) : listedName entry = utf8 entry.1 ++ [47] := by
  rw [listedName, h]
  rfl

/-- The whole name of an entry stays behind what is kept of the URL path. -/
theorem removeDotSegments_listedName (hhead : urlPath.head? = some 47) (hname : FileName entry.1) :
    removeDotSegments (trimEndSlashes urlPath ++ 47 :: listedName entry) =
      slashed (kept (segmentsOf (trimEndSlashes urlPath))) ++ 47 :: listedName entry := by
  obtain ⟨hslash, hdot, hdots⟩ := FileName.not_dots hname
  cases hdir : entry.2 with
  | false =>
    rw [listedName_false hdir, removeDotSegments_link hhead hslash, keepLast, if_neg hdot, if_neg hdots]
    simp
  | true =>
    have hbase := slashed_segmentsOf (head?_trimEndSlashes hhead)
    have hlink : trimEndSlashes urlPath ++ 47 :: (utf8 entry.1 ++ [47]) =
        slashed (segmentsOf (trimEndSlashes urlPath) ++ [utf8 entry.1] ++ [[]]) := by
      rw [slashed_append, slashed_append, hbase]
      simp
    have hsegments : ∀ s ∈ segmentsOf (trimEndSlashes urlPath) ++ [utf8 entry.1], 47 ∉ s := by
      intro s hs
      rcases List.mem_append.mp hs with hs | hs
      · exact slash_not_mem_segment hs
      · rwa [List.mem_singleton.mp hs]
    rw [listedName_true hdir, hlink, removeDotSegments_slashed hsegments (by decide), kept_append, List.foldl_cons,
      List.foldl_nil, keepSegment, if_neg hdot, if_neg hdots, keepLast, if_neg (by decide), if_neg (by decide),
      slashed_append, slashed_append, slashed_singleton, slashed_singleton, List.append_assoc, List.cons_append]

/-! ## Plain names -/

theorem PlainName.decode (hd : DecodesAll percentDecode) (h : PlainName percentDecode entry.1) :
    percentDecode (listedName entry) = listedName entry := by
  cases hdir : entry.2 with
  | false => rw [listedName_false hdir, h.escape]
  | true => rw [listedName_true hdir, hd.slash, h.escape, hd.nil]

/-- The only mark behind a name is a slash. -/
theorem mark_not_mem_listedName {c : Char} (h7 : b.toNat < 128) (hcode : c.toNat = b.toNat) (hslash : b ≠ 47)
    (h : c ∉ entry.1) : b ∉ listedName entry := by
  have hname : b ∉ utf8 entry.1 := fun hmem => h ((mem_utf8_iff h7 hcode).mp hmem)
  cases hdir : entry.2 with
  | false => rwa [listedName_false hdir]
  | true =>
    rw [listedName_true hdir]
    simpa using ⟨hname, hslash⟩

theorem PlainName.not_mem (h : PlainName percentDecode entry.1) :
    34 ∉ listedName entry ∧ 63 ∉ listedName entry ∧ 35 ∉ listedName entry :=
  ⟨mark_not_mem_listedName (by decide) rfl (by decide) h.quote,
    mark_not_mem_listedName (by decide) rfl (by decide) h.question,
    mark_not_mem_listedName (by decide) rfl (by decide) h.hash⟩

theorem pieces_listedName (h : FileName entry.1) : pieces (listedName entry) = [.normal (utf8 entry.1)] := by
  cases hdir : entry.2 with
  | false => rw [listedName_false hdir, h.isName.pieces_eq]
  | true =>
    have hslash := pieces_append (utf8 entry.1) ([] : Bytes)
    rw [listedName_true hdir]
    exact hslash.trans (by rw [h.isName.pieces_eq, pieces_nil, List.append_nil])

theorem isUtf8_listedName (entry : Text × Bool) : (listedName entry).isUtf8 = true := by
  cases hdir : entry.2 with
  | false =>
    rw [listedName_false hdir]
    exact isUtf8_iff.mpr ⟨_, rfl⟩
  | true =>
    rw [listedName_true hdir]
    exact isUtf8_slash.mpr ⟨isUtf8_iff.mpr ⟨_, rfl⟩, isUtf8_iff.mpr ⟨[], rfl⟩⟩

theorem head?_listedName (h : FileName entry.1) : (listedName entry).head? ≠ some 47 := by
  obtain ⟨hslash, -, -⟩ := FileName.not_dots h
  cases hn : utf8 entry.1 with
  | nil => exact absurd (utf8_eq_nil hn) h.ne_nil
  | cons b bs =>
    rw [hn] at hslash
    intro he
    rw [listedName, hn] at he
    have hb : b = 47 := by simpa using he
    exact hslash (hb ▸ List.mem_cons_self)

/-- The name up to its first quote, which a browser reads. -/
def readName (entry : Text × Bool) : Bytes := (listedName entry).takeWhile (· ≠ 34)

theorem hrefOf_eq {base : Bytes} (h : 34 ∉ base) : hrefOf base entry = base ++ 47 :: readName entry := by
  rw [hrefOf_eq_takeWhile, linkOf, takeWhile_ne_append h, List.takeWhile_cons_of_pos (by decide)]
  rfl

theorem head?_readName (h : FileName entry.1) : (readName entry).head? ≠ some 47 := by
  intro he
  obtain ⟨y, hy⟩ := List.head?_eq_some_iff.mp he
  obtain ⟨z, hz⟩ := List.takeWhile_prefix (p := fun b => decide (b ≠ 34)) (l := listedName entry)
  have hread : (listedName entry).takeWhile (fun b => decide (b ≠ 34)) = 47 :: y := hy
  rw [hread] at hz
  exact head?_listedName h (hz ▸ rfl)

theorem mark_not_mem_readName {b : UInt8} (h : b = 34 ∨ b = 63 ∨ b = 35) : b ∉ pathPart (readName entry) := by
  intro hmem
  rcases h with rfl | rfl | rfl
  · have hread := List.mem_takeWhile_imp ((prefix_pathPart _).subset hmem)
    simp at hread
  · have hread := List.mem_takeWhile_imp hmem
    simp at hread
  · have hread := List.mem_takeWhile_imp ((List.takeWhile_prefix _).subset hmem)
    simp at hread

theorem pathPart_readName (hquote : '"' ∉ entry.1) (hquestion : '?' ∉ entry.1) (hhash : '#' ∉ entry.1) :
    pathPart (readName entry) = listedName entry := by
  have h34 : 34 ∉ listedName entry := mark_not_mem_listedName (by decide) rfl (by decide) hquote
  have hread : readName entry = listedName entry := takeWhile_ne h34
  rw [hread]
  exact pathPart_of_not_mem (mark_not_mem_listedName (by decide) rfl (by decide) hquestion)
    (mark_not_mem_listedName (by decide) rfl (by decide) hhash)

/-- The names that a link goes through at its end are parts of the decoded name. -/
theorem sublist_of_mem_pieces_listedName (hd : DecodesAll percentDecode) {part : Bytes}
    (h : .normal part ∈ pieces (cleanPath percentDecode (listedName entry))) :
    part.Sublist (percentDecode (utf8 entry.1)) := by
  have hname : ∀ {bs : Bytes}, .normal part ∈ pieces (cleanPath percentDecode bs) → part.Sublist (percentDecode bs) :=
    fun hpart => (sublist_of_mem_pieces hpart).1.trans (List.takeWhile_sublist _)
  cases hdir : entry.2 with
  | false =>
    rw [listedName_false hdir] at h
    exact hname h
  | true =>
    rw [listedName_true hdir] at h
    by_cases hk : 63 ∈ percentDecode (utf8 entry.1)
    · rw [cleanPath_question hd hk] at h
      exact hname h
    · have hpieces := pieces_append (percentDecode (utf8 entry.1)) ([] : Bytes)
      rw [cleanPath_slash hd hk, cleanPath_nil hd] at h
      have hmem := (hpieces.trans (by rw [pieces_nil, List.append_nil])) ▸ h
      exact (sublist_of_mem_pieces hmem).1

/-- A name with a mark is not read to its end. -/
theorem readName_short {b : UInt8} (h : b = 34 ∨ b = 63 ∨ b = 35) (hb : b ∈ utf8 entry.1) :
    pathPart (readName entry) <+: utf8 entry.1 ∧ (pathPart (readName entry)).length < (utf8 entry.1).length := by
  have hread : pathPart (readName entry) <+: listedName entry :=
    (prefix_pathPart _).trans (List.takeWhile_prefix _)
  have hname : utf8 entry.1 <+: listedName entry := List.prefix_append _ _
  have hlt : (pathPart (readName entry)).length < (utf8 entry.1).length := by
    by_contra hle
    have hstart := List.prefix_of_prefix_length_le hname hread (not_lt.mp hle)
    exact mark_not_mem_readName h (hstart.subset hb)
  exact ⟨List.prefix_of_prefix_length_le hread hname hlt.le, hlt⟩

/-- What is kept of the URL path, up to its last slash. -/
def keptPath (urlPath : Bytes) : Bytes := slashed (kept (segmentsOf (trimEndSlashes urlPath)))

theorem directoryPath_eq (urlPath : Bytes) : directoryPath urlPath = keptPath urlPath ++ [47] := by
  rw [directoryPath, slashed_append, slashed_singleton]
  rfl

theorem question_not_mem_keptPath (hd : DecodesAll percentDecode) (h : 63 ∉ percentDecode (directoryPath urlPath)) :
    63 ∉ percentDecode (keptPath urlPath) := by
  rw [directoryPath_eq, hd.slash] at h
  exact fun hmem => h (List.mem_append_left _ hmem)

/-- **A plain name under a straight path** is led to by its link as it is written. -/
theorem leadsTo_entry (hd : DecodesAll percentDecode) (hhead : urlPath.head? = some 47) (h63 : 63 ∉ urlPath)
    (h35 : 35 ∉ urlPath) (hname : FileName entry.1) (hplain : PlainName percentDecode entry.1)
    (hstraight : Straight percentDecode urlPath) (hp : sf.safePath percentDecode (directoryPath urlPath) = some p)
    (hdir : components p = components dir) :
    LeadsTo percentDecode sf urlPath (linkOf (trimEndSlashes urlPath) entry) (push dir (utf8 entry.1)) := by
  obtain ⟨-, hquestion, hhash⟩ := PlainName.not_mem hplain
  have hfirst := head?_listedName hname
  have htarget : resolvePath urlPath (linkOf (trimEndSlashes urlPath) entry) =
      some (keptPath urlPath ++ 47 :: listedName entry) := by
    rw [linkOf, resolvePath_link hhead h63 h35 hstraight.server hfirst, pathPart_of_not_mem hquestion hhash,
      removeDotSegments_listedName hhead hname]
    rfl
  have hk := question_not_mem_keptPath hd hstraight.question
  have hclean : cleanPath percentDecode (listedName entry) = listedName entry := by
    rw [cleanPath, PlainName.decode hd hplain, takeWhile_ne hquestion]
  rw [directoryPath_eq] at hp
  obtain ⟨hutf, hresolve, hstarts⟩ := safePath_eq_some_iff.mp hp
  refine ⟨_, push p (utf8 entry.1), htarget, safePath_eq_some_iff.mpr ⟨?_, ?_, ?_⟩, ?_⟩
  · rw [hd.slash, isUtf8_slash, PlainName.decode hd hplain]
    rw [hd.slash, isUtf8_slash] at hutf
    exact ⟨hutf.1, isUtf8_listedName entry⟩
  · rw [components_slash hd hk, hclean, pieces_listedName hname, resolve_append, hresolve]
    rfl
  · rw [startsWith_iff] at hstarts ⊢
    rw [components_push p hname.isName]
    exact hstarts.trans (List.prefix_append _ _)
  · rw [components_push p hname.isName, components_push dir hname.isName, hdir]

/-! ## The parent directory -/

theorem exists_segments (hhead : urlPath.head? = some 47) : ∃ ss s, segmentsOf urlPath = ss ++ [s] := by
  rcases List.eq_nil_or_concat (segmentsOf urlPath) with hnil | ⟨ss, s, hs⟩
  · have hpath := slashed_segmentsOf (.inr hhead)
    rw [hnil] at hpath
    rw [← hpath] at hhead
    cases hhead
  · exact ⟨ss, s, by rw [hs, List.concat_eq_append]⟩

theorem resolvePath_up (hhead : urlPath.head? = some 47) :
    resolvePath urlPath (Bytes.ofString "../") = some (parentPath urlPath) := by
  obtain ⟨ss, s, hs⟩ := exists_segments hhead
  have hpath := slashed_segmentsOf (.inr hhead)
  have hdots : Bytes.ofString "../" = [46, 46, 47] := by decide
  have hsegments : ∀ t ∈ ss ++ [s], 47 ∉ t := fun t ht => slash_not_mem_segment (hs ▸ ht)
  rw [parentPath, hs, List.dropLast_concat, hdots, ← hpath, hs]
  exact resolvePath_parent (fun t ht => hsegments t (List.mem_append_left _ ht))
    (hsegments s (List.mem_append_right _ List.mem_cons_self))

/-- What is left of a path that is decoded to a text is decoded to a text. -/
theorem isUtf8_parentPath (hd : DecodesAll percentDecode) (hhead : urlPath.head? = some 47)
    (hutf : (percentDecode urlPath).isUtf8 = true) : (percentDecode (parentPath urlPath)).isUtf8 = true := by
  rw [← slashed_segmentsOf (.inr hhead), isUtf8_slashed hd] at hutf
  rw [parentPath, isUtf8_slashed hd]
  intro s hs
  rcases List.mem_append.mp hs with hs | hs
  · exact hutf s (List.mem_of_mem_dropLast (mem_of_mem_kept (List.mem_of_mem_dropLast hs)))
  · rw [List.mem_singleton.mp hs, hd.nil]
    rfl

/-- **Two segments with one name** are what `../` takes away. -/
theorem leadsTo_parent (hd : DecodesAll percentDecode) (hhead : urlPath.head? = some 47)
    (hutf : (percentDecode urlPath).isUtf8 = true) (hp : sf.safePath percentDecode (directoryPath urlPath) = some p)
    (hdir : components p = components dir) (hbelow : OneBelow percentDecode sf urlPath dir) :
    ∃ up, UnixPath.parent dir = some up ∧ LeadsTo percentDecode sf urlPath (Bytes.ofString "../") up := by
  obtain ⟨hne, name, hcomponents⟩ := hbelow
  obtain ⟨-, hresolve, hstarts⟩ := safePath_eq_some_iff.mp hp
  have hname : IsName name := by
    refine isName_of_mem_components (p := cleanPath percentDecode (directoryPath urlPath)) ?_
    rw [hcomponents]
    exact List.mem_append_right _ List.mem_cons_self
  rw [hcomponents, resolve_append] at hresolve
  obtain ⟨r, hr, hlast⟩ := Option.bind_eq_some_iff.mp hresolve
  obtain rfl : push r name = p := Option.some.inj hlast
  rw [components_push r hname] at hdir
  have hroot : startsWith r sf.root = true := by
    rw [startsWith_iff, components_push r hname, List.prefix_concat_iff] at hstarts
    rcases hstarts with he | hstart
    · exact absurd (hdir.symm.trans he.symm) hne
    · exact startsWith_iff.mpr hstart
  cases hup : UnixPath.parent dir with
  | none =>
    rcases parent_eq_none_iff.mp hup with he | he
    · rw [he] at hdir
      simp at hdir
    · rw [he] at hdir
      have hroot := (List.append_inj' (hdir.trans (List.nil_append _).symm) rfl).2
      simp at hroot
  | some up =>
    refine ⟨up, rfl, _, r, resolvePath_up hhead,
      safePath_eq_some_iff.mpr ⟨isUtf8_parentPath hd hhead hutf, hr, hroot⟩, ?_⟩
    rw [components_parent hup, ← hdir, List.dropLast_concat]

/-- **Good links lead** to the entries and the parent directory. -/
theorem LinksGood.linksLead (hd : DecodesAll percentDecode) (hr : ReadsHref read)
    (hhead : urlPath.head? = some 47) (h63 : 63 ∉ urlPath) (h35 : 35 ∉ urlPath)
    (hutf : (percentDecode urlPath).isUtf8 = true)
    (hnames : ∀ entry ∈ fs.readDir dir, FileName entry.1) (h : LinksGood percentDecode read sf fs urlPath dir) :
    LinksLead percentDecode read sf fs urlPath dir := by
  obtain ⟨⟨p, hp, hdir⟩, hstraight, hplain, hread, hparent⟩ := h
  refine ⟨fun entry he => ?_, fun hne => ?_⟩
  · have hstraight := hstraight.resolve_left fun hnil => by
      rw [hnil] at he
      cases he
    have hquote : 34 ∉ linkOf (trimEndSlashes urlPath) entry :=
      quote_not_mem_linkOf.mpr ⟨hstraight.quote, (hplain entry he).quote⟩
    rw [hrefOf_eq_linkOf hquote, hread entry he]
    exact leadsTo_entry hd hhead h63 h35 (hnames entry he) (hplain entry he) hstraight hp hdir
  · rw [hr.parent]
    exact leadsTo_parent hd hhead hutf hp hdir (hparent.resolve_left hne)

end StaticFileServer

end Curf
