import Curf.Static.Links

/-!
# The links under a path without dot segments

Under a URL path that has no dot segments, raw or encoded, no link leads where it should by
coincidence: `linksLead_iff` says exactly when the links of a listing lead to what they
name.
-/

namespace Curf

open Lib Lib.UnixPath

namespace StaticFileServer

/-- The URL path has no dot segments and leads never up. -/
structure Undotted (percentDecode : Bytes → Bytes) (urlPath : Bytes) : Prop where
  segments : ∀ s ∈ segmentsOf urlPath, s ≠ [46] ∧ s ≠ [46, 46]
  no_parent : .parentDir ∉ components (cleanPath percentDecode urlPath)

variable {percentDecode read : Bytes → Bytes} {sf : StaticFileServer} {fs : FileSystem} {urlPath dir x y p : Bytes}
  {entry : Text × Bool} {ss : List Bytes} {name : Text}

namespace Undotted

variable (h : Undotted percentDecode urlPath) (hhead : urlPath.head? = some 47)

include h hhead

theorem keptPath_eq : keptPath urlPath = trimEndSlashes urlPath := by
  rw [keptPath, kept_eq fun s hs => h.segments s (mem_segments_trimmed hhead hs)]
  exact slashed_segmentsOf (head?_trimEndSlashes hhead)

theorem directoryPath_eq : directoryPath urlPath = trimEndSlashes urlPath ++ [47] := by
  rw [StaticFileServer.directoryPath_eq, h.keptPath_eq hhead]

/-- The path kept in front of the names leads to the directory. -/
theorem safePath_directoryPath (hd : DecodesAll percentDecode) (hsafe : sf.safePath percentDecode urlPath = some dir) :
    sf.safePath percentDecode (directoryPath urlPath) = some dir := by
  obtain ⟨hutf, hresolve, hstarts⟩ := safePath_eq_some_iff.mp hsafe
  rw [safePath_eq_some_iff, h.directoryPath_eq hhead, ← components_trimmed hd hhead]
  refine ⟨?_, hresolve, hstarts⟩
  rw [hd.slash, isUtf8_slash, hd.nil]
  obtain ⟨n, hn⟩ := exists_trimEndSlashes urlPath
  rw [← slashed_segmentsOf (.inr hhead), isUtf8_slashed hd] at hutf
  rw [← slashed_segmentsOf (head?_trimEndSlashes hhead), isUtf8_slashed hd]
  exact ⟨fun s hs => hutf s (mem_segments_trimmed hhead hs), rfl⟩

/-- A path with no more names than the URL path leads to no entry. -/
theorem not_leads_of_le (hd : DecodesAll percentDecode) (hsafe : sf.safePath percentDecode urlPath = some dir)
    (hname : FileName name) (hp : sf.safePath percentDecode x = some p)
    (hx : ((components (cleanPath percentDecode x)).filter isNormal).length ≤
      ((components (cleanPath percentDecode (directoryPath urlPath))).filter isNormal).length) :
    components p ≠ components (push dir (utf8 name)) := by
  rw [h.directoryPath_eq hhead, ← components_trimmed hd hhead] at hx
  have hdir := components_safePath h.no_parent hsafe
  have hshort := length_resolve_le (fun _ => isName_of_mem_components) (safePath_eq_some_iff.mp hp).2.1
  rw [components_push dir hname.isName, hdir]
  intro he
  have hlen := congrArg List.length he
  simp only [List.length_append, List.length_singleton] at hlen
  omega

/-- A path whose components are the first of those of the URL path leads to no entry. -/
theorem not_leads (hd : DecodesAll percentDecode) (hsafe : sf.safePath percentDecode urlPath = some dir)
    (hname : FileName name) (hp : sf.safePath percentDecode x = some p)
    (hx : components (cleanPath percentDecode x) <+: components (cleanPath percentDecode (directoryPath urlPath))) :
    components p ≠ components (push dir (utf8 name)) :=
  h.not_leads_of_le hhead hd hsafe hname hp (hx.filter isNormal).length_le

/-- A link that goes on from the URL path is read up to the end of its name only if the URL
path is. -/
theorem question_of_leads (hd : DecodesAll percentDecode) (hsafe : sf.safePath percentDecode urlPath = some dir)
    (hname : FileName name) (hp : sf.safePath percentDecode (trimEndSlashes urlPath ++ 47 :: x) = some p)
    (hc : components p = components (push dir (utf8 name))) : 63 ∉ percentDecode (trimEndSlashes urlPath) := by
  intro hk
  refine h.not_leads hhead hd hsafe hname hp ?_ hc
  rw [h.directoryPath_eq hhead, cleanPath_question hd hk, cleanPath_question hd hk]

/-- The names that a link goes through behind the URL path are not all shorter than the
name it leads to. -/
theorem exists_long_piece (hd : DecodesAll percentDecode) (hsafe : sf.safePath percentDecode urlPath = some dir)
    (hname : FileName name) (hp : sf.safePath percentDecode (trimEndSlashes urlPath ++ 47 :: x) = some p)
    (hc : components p = components (push dir (utf8 name))) :
    ∃ part, .normal part ∈ pieces (cleanPath percentDecode x) ∧ (utf8 name).length ≤ part.length := by
  by_contra hshort
  have hk := h.question_of_leads hhead hd hsafe hname hp hc
  have hdir := h.safePath_directoryPath hhead hd hsafe
  rw [h.directoryPath_eq hhead] at hdir
  have hwithin : WithinBy (fun part => part.length < (utf8 name).length) dir p := by
    refine withinBy_resolve (fun part hpart => ⟨(sublist_of_mem_pieces hpart).2, ?_⟩) (withinBy_self _ dir)
      (resolve_of_safePath_slash hd hk hdir hp)
    exact lt_of_not_ge fun hle => hshort ⟨part, hpart, hle⟩
  rw [components_push dir hname.isName] at hc
  have hshorter : ∀ part ∈ [utf8 name], part.length < (utf8 name).length := hwithin.names hc
  exact lt_irrefl _ (hshorter _ List.mem_cons_self)

/-- A last segment that is `.` or `..` leads to no entry; what is left is any other one. -/
theorem not_leads_last (hd : DecodesAll percentDecode) (hsafe : sf.safePath percentDecode urlPath = some dir)
    (hname : FileName name) (hpath : directoryPath urlPath = slashed ss ++ 47 :: y) (hslash : ∀ s ∈ ss, 47 ∉ s)
    (hdots : ∀ s ∈ ss, s ≠ [46] ∧ s ≠ [46, 46]) (hx : 47 ∉ x)
    (hp : sf.safePath percentDecode (removeDotSegments (slashed (ss ++ [x]))) = some p)
    (hlast : sf.safePath percentDecode (slashed ss ++ 47 :: x) = some p →
      components p ≠ components (push dir (utf8 name))) :
    components p ≠ components (push dir (utf8 name)) := by
  rw [removeDotSegments_slashed hslash hx, kept_eq hdots, keepLast] at hp
  split at hp
  · -- `.` leaves the directory
    obtain ⟨z, hz⟩ := exists_components_slash hd (slashed ss) y
    rw [slashed_append, slashed_singleton] at hp
    exact h.not_leads hhead hd hsafe hname hp (by rw [hpath, hz]; exact List.prefix_append _ _)
  · split at hp
    · -- `..` leaves the one above it
      refine h.not_leads hhead hd hsafe hname hp ?_
      rw [hpath]
      rcases List.eq_nil_or_concat ss with rfl | ⟨ts, t, rfl⟩
      · obtain ⟨z, hz⟩ := exists_components_slash hd [] y
        exact ⟨pieces z, hz.symm⟩
      · obtain ⟨z, hz⟩ := exists_components_slash hd (slashed ts) (t ++ 47 :: y)
        rw [List.concat_eq_append, List.dropLast_concat, slashed_append, slashed_append, slashed_singleton,
          slashed_singleton, List.append_assoc, List.cons_append, hz]
        exact List.prefix_append _ _
    · rw [slashed_append, slashed_singleton] at hp
      exact hlast hp

/-- A link with a shorter name leads to no entry. -/
theorem not_leads_short (hd : DecodesAll percentDecode) (hsafe : sf.safePath percentDecode urlPath = some dir)
    (hname : FileName name) (hx : 47 ∉ x) (hlt : x.length < (utf8 name).length)
    (hp : sf.safePath percentDecode (removeDotSegments (trimEndSlashes urlPath ++ 47 :: x)) = some p) :
    components p ≠ components (push dir (utf8 name)) := by
  have hbase := slashed_segmentsOf (head?_trimEndSlashes hhead)
  have hpath : directoryPath urlPath = slashed (segmentsOf (trimEndSlashes urlPath)) ++ [47] := by
    rw [h.directoryPath_eq hhead, hbase]
  have hlink : trimEndSlashes urlPath ++ 47 :: x = slashed (segmentsOf (trimEndSlashes urlPath) ++ [x]) := by
    rw [slashed_append, hbase, slashed_singleton]
  rw [hlink] at hp
  refine h.not_leads_last hhead hd hsafe hname hpath (fun _ => slash_not_mem_segment)
    (fun s hs => h.segments s (mem_segments_trimmed hhead hs)) hx hp fun hp hc => ?_
  rw [hbase] at hp
  obtain ⟨part, hpart, hlong⟩ := h.exists_long_piece hhead hd hsafe hname hp hc
  have hclean : (cleanPath percentDecode x).length ≤ x.length :=
    (List.takeWhile_prefix _).length_le.trans (hd.length_le x)
  have hle := (sublist_of_mem_pieces hpart).1.length_le
  omega

/-- A path that ends in a segment cut at a quote leads to no entry. -/
theorem not_leads_cut (hd : DecodesAll percentDecode) (hsafe : sf.safePath percentDecode urlPath = some dir)
    (hname : FileName name) (hbase : trimEndSlashes urlPath = slashed (ss ++ [x]) ++ 34 :: y)
    (hslash : ∀ s ∈ ss, 47 ∉ s) (hx : 47 ∉ x)
    (hp : sf.safePath percentDecode (removeDotSegments (slashed (ss ++ [x]))) = some p) :
    components p ≠ components (push dir (utf8 name)) := by
  have hrest : slashed (ss ++ [x]) ++ 34 :: y = slashed ss ++ 47 :: (x ++ 34 :: y) := by simp
  have hpath : directoryPath urlPath = slashed ss ++ 47 :: (x ++ 34 :: (y ++ [47])) := by
    rw [h.directoryPath_eq hhead, hbase, hrest]
    simp
  have hdots : ∀ s ∈ ss, s ≠ [46] ∧ s ≠ [46, 46] := by
    intro s hs
    refine h.segments s (mem_segments_trimmed hhead ?_)
    rw [hbase, hrest, segmentsOf_slashed_append hslash]
    exact List.mem_append_left _ hs
  refine h.not_leads_last hhead hd hsafe hname hpath hslash hdots hx hp fun hp => ?_
  refine h.not_leads_of_le hhead hd hsafe hname hp ?_
  rw [hpath]
  by_cases hk : 63 ∈ percentDecode (slashed ss)
  · rw [cleanPath_question hd hk, cleanPath_question hd hk]
  · rw [components_slash hd hk x, components_slash hd hk (x ++ 34 :: _), List.filter_append, List.filter_append,
      List.length_append, List.length_append]
    exact Nat.add_le_add_left (length_cleanPath_le hd x (y ++ [47])) _

/-- A URL path with a quote leads to no entry: its links end at the quote. -/
theorem quote_not_mem_of_leadsTo (hd : DecodesAll percentDecode) (h63 : 63 ∉ urlPath) (h35 : 35 ∉ urlPath)
    (hsafe : sf.safePath percentDecode urlPath = some dir) (hname : FileName entry.1)
    (hlead : LeadsTo percentDecode sf urlPath (hrefOf (trimEndSlashes urlPath) entry) (push dir (utf8 entry.1))) :
    34 ∉ trimEndSlashes urlPath := by
  intro hquote
  obtain ⟨target, p, htarget, hp, hc⟩ := hlead
  obtain ⟨x, y, hbase, hx⟩ := List.eq_append_cons_of_mem hquote
  have hhref : hrefOf (trimEndSlashes urlPath) entry = x := by
    rw [hrefOf_eq_takeWhile, linkOf, takeWhile_ne_append_of_mem hquote, hbase, takeWhile_ne_mark hx]
  have hfirst : x.head? = some 47 := by
    rcases head?_trimEndSlashes hhead with hnil | hslash
    · rw [hnil] at hquote
      cases hquote
    · rw [hbase] at hslash
      cases x with
      | nil => cases hslash
      | cons b x => exact hslash
  obtain ⟨t, ht⟩ := List.head?_eq_some_iff.mp hfirst
  have hserver : t.head? ≠ some 47 := by
    intro he
    obtain ⟨t, rfl⟩ := List.head?_eq_some_iff.mp he
    rw [hhref, ht] at htarget
    cases (resolvePath_slashes urlPath _).symm.trans htarget
  have hmem : ∀ b, b ∉ urlPath → b ∉ x := fun b hb hxb =>
    not_mem_trimEndSlashes hb (hbase ▸ List.mem_append_left _ hxb)
  rw [hhref, ht, resolvePath_slash urlPath hserver, ← ht, pathPart_of_not_mem (hmem 63 h63) (hmem 35 h35)] at htarget
  obtain rfl := Option.some.inj htarget
  obtain ⟨ss, s, hs⟩ := exists_segments hfirst
  have hsegments := slashed_segmentsOf (.inr hfirst)
  have hslash : ∀ t ∈ ss ++ [s], 47 ∉ t := fun t ht => slash_not_mem_segment (hs ▸ ht)
  rw [hs] at hsegments
  rw [← hsegments] at hp hbase
  exact h.not_leads_cut hhead hd hsafe hname hbase (fun t ht => hslash t (List.mem_append_left _ ht))
    (hslash s (List.mem_append_right _ List.mem_cons_self)) hp hc

/-- **Where an entry is led to**, the path is straight and the name plain. -/
theorem plain_of_leadsTo (hd : DecodesAll percentDecode) (h63 : 63 ∉ urlPath) (h35 : 35 ∉ urlPath)
    (hsafe : sf.safePath percentDecode urlPath = some dir) (hname : FileName entry.1)
    (hlead : LeadsTo percentDecode sf urlPath (hrefOf (trimEndSlashes urlPath) entry) (push dir (utf8 entry.1))) :
    Straight percentDecode urlPath ∧ PlainName percentDecode entry.1 := by
  have hquote := h.quote_not_mem_of_leadsTo hhead hd h63 h35 hsafe hname hlead
  obtain ⟨target, p, htarget, hp, hc⟩ := hlead
  have hserver : ¬ [47, 47] <+: trimEndSlashes urlPath := by
    rintro ⟨t, ht⟩
    rw [hrefOf_eq hquote, ← ht] at htarget
    cases (resolvePath_slashes urlPath _).symm.trans htarget
  rw [hrefOf_eq hquote, resolvePath_link hhead h63 h35 hserver (head?_readName hname)] at htarget
  obtain rfl := Option.some.inj htarget
  obtain ⟨hslash, -, -⟩ := FileName.not_dots hname
  have hmark : ∀ b : UInt8, b = 34 ∨ b = 63 ∨ b = 35 → b ∉ utf8 entry.1 := by
    intro b hb hmem
    obtain ⟨hstart, hlt⟩ := readName_short hb hmem
    exact h.not_leads_short hhead hd hsafe hname (fun h47 => hslash (hstart.subset h47)) hlt hp hc
  have hmarks : '"' ∉ entry.1 ∧ '?' ∉ entry.1 ∧ '#' ∉ entry.1 :=
    ⟨fun hmem => hmark 34 (.inl rfl) ((mem_utf8_iff (by decide) (by decide)).mpr hmem),
      fun hmem => hmark 63 (.inr (.inl rfl)) ((mem_utf8_iff (by decide) (by decide)).mpr hmem),
      fun hmem => hmark 35 (.inr (.inr rfl)) ((mem_utf8_iff (by decide) (by decide)).mpr hmem)⟩
  rw [pathPart_readName hmarks.1 hmarks.2.1 hmarks.2.2, removeDotSegments_listedName hhead hname] at hp
  have hkept := h.keptPath_eq hhead
  rw [keptPath] at hkept
  rw [hkept] at hp
  have hk := h.question_of_leads hhead hd hsafe hname hp hc
  obtain ⟨part, hpart, hlong⟩ := h.exists_long_piece hhead hd hsafe hname hp hc
  refine ⟨⟨hquote, hserver, ?_⟩, hmarks.1, hmarks.2.1, hmarks.2.2, ?_⟩
  · rw [h.directoryPath_eq hhead, hd.slash, hd.nil]
    simpa using hk
  · have hle := (sublist_of_mem_pieces_listedName hd hpart).length_le
    rcases hd.eq_or_length_lt (utf8 entry.1) with he | hlt
    · exact he
    · omega

/-- The components of the URL path begin with those of the path that `../` leads to. -/
theorem exists_below (hd : DecodesAll percentDecode) :
    ∃ z, components (cleanPath percentDecode (directoryPath urlPath)) =
      components (cleanPath percentDecode (parentPath urlPath)) ++ pieces z := by
  obtain ⟨ss, s, hs⟩ := exists_segments hhead
  have hkept : kept ss = ss := kept_eq fun t ht => h.segments t (hs ▸ List.mem_append_left _ ht)
  have hparent : parentPath urlPath = slashed ss.dropLast ++ [47] := by
    rw [parentPath, hs, List.dropLast_concat, hkept, slashed_append, slashed_singleton]
  have hpath : ∃ rest, urlPath = slashed ss.dropLast ++ 47 :: rest := by
    have hslashed := slashed_segmentsOf (.inr hhead)
    rw [hs, slashed_append, slashed_singleton] at hslashed
    rcases List.eq_nil_or_concat ss with rfl | ⟨ts, t, rfl⟩
    · exact ⟨s, hslashed.symm⟩
    · refine ⟨t ++ 47 :: s, ?_⟩
      rw [List.concat_eq_append, List.dropLast_concat, ← hslashed]
      simp
  obtain ⟨rest, hrest⟩ := hpath
  rw [hparent, h.directoryPath_eq hhead, ← components_trimmed hd hhead]
  exact hrest ▸ exists_components_slash hd _ rest

/-- **Where `../` leads to the parent directory**, one name is taken away. -/
theorem oneBelow_of_leadsTo (hd : DecodesAll percentDecode) (hsafe : sf.safePath percentDecode urlPath = some dir)
    {up : Bytes} (hup : UnixPath.parent dir = some up)
    (hlead : LeadsTo percentDecode sf urlPath (Bytes.ofString "../") up) :
    OneBelow percentDecode sf urlPath dir := by
  obtain ⟨target, p, htarget, hp, hc⟩ := hlead
  obtain rfl := Option.some.inj ((resolvePath_up hhead).symm.trans htarget)
  have hne : components dir ≠ [] := fun hnil => by
    cases (parent_eq_none_iff.mpr (.inl hnil)).symm.trans hup
  have hlen : (components p).length + 1 = (components dir).length := by
    rw [hc, components_parent hup, List.length_dropLast]
    have := List.length_pos_iff.mpr hne
    omega
  obtain ⟨z, hz⟩ := h.exists_below hhead hd
  have hbelow := h.no_parent
  rw [components_trimmed hd hhead, ← h.directoryPath_eq hhead, hz] at hbelow
  have hdir := components_safePath h.no_parent hsafe
  have hpath := components_safePath (fun hmem => hbelow (List.mem_append_left _ hmem)) hp
  have hnormal : (pieces z).filter isNormal = pieces z := by
    refine List.filter_eq_self.mpr fun c hc => ?_
    rcases parentDir_or_normal_of_mem_pieces hc with rfl | ⟨name, rfl⟩
    · exact absurd (List.mem_append_right _ hc) hbelow
    · rfl
  rw [components_trimmed hd hhead, ← h.directoryPath_eq hhead, hz, List.filter_append, hnormal, ← List.append_assoc,
    ← hpath] at hdir
  have hone : (pieces z).length = 1 := by
    rw [hdir, List.length_append] at hlen
    omega
  obtain ⟨c, hpieces⟩ := List.length_eq_one_iff.mp hone
  constructor
  · intro he
    have hstarts := (startsWith_iff.mp (safePath_eq_some_iff.mp hp).2.2).length_le
    rw [he] at hlen
    omega
  · rcases parentDir_or_normal_of_mem_pieces (hpieces ▸ List.mem_cons_self : c ∈ pieces z) with rfl | ⟨name, rfl⟩
    · exact absurd (List.mem_append_right _ (hpieces ▸ List.mem_cons_self)) hbelow
    · exact ⟨name, by rw [hz, hpieces]⟩

theorem linksGood (hd : DecodesAll percentDecode) (hr : ReadsHref read) (h63 : 63 ∉ urlPath) (h35 : 35 ∉ urlPath)
    (hnames : ∀ entry ∈ fs.readDir dir, FileName entry.1) (hsafe : sf.safePath percentDecode urlPath = some dir)
    (hread : ∀ entry ∈ fs.readDir dir,
      read (hrefOf (trimEndSlashes urlPath) entry) = hrefOf (trimEndSlashes urlPath) entry)
    (hlead : LinksLead percentDecode read sf fs urlPath dir) : LinksGood percentDecode read sf fs urlPath dir := by
  have hplain : ∀ entry ∈ fs.readDir dir, Straight percentDecode urlPath ∧ PlainName percentDecode entry.1 := by
    intro entry he
    have hleads := hlead.entries entry he
    rw [hread entry he] at hleads
    exact h.plain_of_leadsTo hhead hd h63 h35 hsafe (hnames entry he) hleads
  refine ⟨⟨dir, h.safePath_directoryPath hhead hd hsafe, rfl⟩, ?_, fun entry he => (hplain entry he).2,
    fun entry he => ?_, ?_⟩
  · cases hlist : fs.readDir dir with
    | nil => exact .inl rfl
    | cons entry entries => exact .inr (hplain entry (hlist ▸ List.mem_cons_self)).1
  · obtain ⟨hstraight, hname⟩ := hplain entry he
    rw [← hrefOf_eq_linkOf (quote_not_mem_linkOf.mpr ⟨hstraight.quote, hname.quote⟩)]
    exact hread entry he
  · by_cases hne : trimEndSlashes urlPath = []
    · exact .inl hne
    · obtain ⟨up, hup, hleads⟩ := hlead.parent hne
      rw [hr.parent] at hleads
      exact .inr (h.oneBelow_of_leadsTo hhead hd hsafe hup hleads)

end Undotted

/-! ## Listings -/

theorem fileName_of_listed {name : Text} (h : FileName name) :
    ∀ entry ∈ (listed name).readDir dir, FileName entry.1 := by
  intro entry he
  rwa [List.mem_singleton.mp he]

/-- A reading that knows one character reference, `&amp;`. -/
def readAmp : Bytes → Bytes
  | 38 :: 97 :: 109 :: 112 :: 59 :: s => 38 :: readAmp s
  | b :: s => b :: readAmp s
  | [] => []

theorem readAmp_self {s : Bytes} (h : 38 ∉ s) : readAmp s = s := by
  induction s with
  | nil => rfl
  | cons b s ih =>
    obtain ⟨hb, hs⟩ := not_or.mp (mt List.mem_cons.mpr h)
    rw [readAmp, ih hs]
    rintro t rfl
    exact absurd rfl hb

theorem readsHref_readAmp : ReadsHref readAmp :=
  ⟨fun _ _ h => readAmp_self fun hmem => (h 38 hmem).2.1 rfl⟩

end StaticFileServer

end Curf
