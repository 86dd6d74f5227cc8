import Curf.Lib.Html
import Curf.Proxy.Handle
import Curf.Static.FileUrl

/-!
# The markup of a listing

`directory_listing` puts the URL path and the names of the entries into its page as they
are, and each name both into an attribute and into the text of its link.
`uninjected_iff` says for which paths and names the page has the markup of the template
and one link for each entry.
-/

namespace Curf

open Lib Lib.Html

namespace StaticFileServer

/-- The name of an entry as it is listed. -/
def listedName (entry : Text × Bool) : Bytes := utf8 entry.1 ++ Bytes.ofString (if entry.2 then "/" else "")

/-- What the link of an entry refers to. -/
def linkOf (base : Bytes) (entry : Text × Bool) : Bytes := base ++ 47 :: listedName entry

/-! ## The template -/

def startTag (name : String) (attrs : List Attribute) : Markup := .tag ⟨false, Bytes.ofString name, attrs⟩

def endTag (name : String) : Markup := .tag ⟨true, Bytes.ofString name, []⟩

def link (target : Bytes) : List Markup := [startTag "a" [(Bytes.ofString "href", target)], endTag "a"]

/-- The markup up to the heading. -/
def topMarkup : List Markup :=
  [.comment (Bytes.ofString "DOCTYPE html"), startTag "html" [], startTag "head" [], startTag "title" []]

def headMarkup : List Markup :=
  [endTag "title", startTag "style" [], endTag "style", endTag "head", startTag "body" [], startTag "h1" []]

def headingMarkup : List Markup := [endTag "h1", startTag "hr" []]

def footMarkup : List Markup := [startTag "hr" [], endTag "body", endTag "html"]

/-- The markup of the template, with a link to the parent below the root, and one link for
each entry. -/
def listingMarkup (base : Bytes) (entries : List (Text × Bool)) : List Markup :=
  topMarkup ++ headMarkup ++ headingMarkup ++ (if base.isEmpty then [] else link (Bytes.ofString "../")) ++
    entries.flatMap (fun entry => link (linkOf base entry)) ++ footMarkup

/-- The listing of a directory under a URL path has this markup and no other. -/
def Uninjected (C : Crates) (fs : FileSystem) (dir urlPath : Bytes) : Prop :=
  ∃ resp, directoryListing C fs dir urlPath = .ok resp ∧
    markup resp.body = listingMarkup (trimEndSlashes urlPath) ((fs.readDir dir).mergeSort nameLe)

/-- No quote ends the attribute and no `<` opens markup in the text. -/
def harmless (entry : Text × Bool) : Bool := '"' ∉ entry.1 && isText (listedName entry)

variable {C : Crates} {fs : FileSystem} {dir urlPath base rest : Bytes} {entry : Text × Bool}
  {entries : List (Text × Bool)} {ms : List Markup}

/-! ## Entries -/

theorem scan_link_open :
    scan .data (Bytes.ofString "<a href=\"") =
      (.quotedValue 34 ⟨false, Bytes.ofString "a", []⟩ (Bytes.ofString "href") [], []) := by decide

theorem scan_link_close : scan .data (Bytes.ofString "</a>") = (.data, [endTag "a"]) := by decide

theorem listingLine_eq (base : Bytes) (entry : Text × Bool) :
    listingLine base entry = Bytes.ofString "<a href=\"" ++ (linkOf base entry ++ [34]) ++
      62 :: (listedName entry ++ 60 :: Bytes.ofString "/a>") := by
  have hslash : Bytes.ofString "/" = [47] := by decide
  have hend : Bytes.ofString "\">" = [34, 62] := by decide
  have hclose : Bytes.ofString "</a>" = 60 :: Bytes.ofString "/a>" := by decide
  unfold listingLine linkOf listedName
  dsimp only
  rw [hslash, hend, hclose]
  simp only [List.append_assoc, List.cons_append, List.nil_append]

/-- The start tag of a link. -/
theorem scan_startTag (h : 34 ∉ linkOf base entry) :
    scan .data (Bytes.ofString "<a href=\"" ++ (linkOf base entry ++ [34]) ++ [62]) =
      (.data, [startTag "a" [(Bytes.ofString "href", linkOf base entry)]]) := by
  have hvalue := scan_trans scan_link_open
    (@scan_quoted (linkOf base entry) [] (Bytes.ofString "href") ⟨false, Bytes.ofString "a", []⟩ 34 h)
  exact scan_trans hvalue rfl

theorem scan_listingLine (hquote : 34 ∉ linkOf base entry) (htext : isText (listedName entry) = true) :
    scan .data (listingLine base entry) = (.data, link (linkOf base entry)) := by
  have hname : scan .data (listedName entry ++ 60 :: Bytes.ofString "/a>") = (.data, [endTag "a"]) :=
    (scan_text_append htext _).trans scan_link_close
  have hsplit : listingLine base entry = (Bytes.ofString "<a href=\"" ++ (linkOf base entry ++ [34]) ++ [62]) ++
      (listedName entry ++ 60 :: Bytes.ofString "/a>") := by
    rw [listingLine_eq]
    simp
  rw [hsplit]
  exact scan_trans (scan_startTag hquote) hname

/-- A quote in the link ends it early. -/
theorem run_quote (h : 34 ∈ linkOf base entry) (rest : Bytes) (ms : List Markup) :
    run .data (listingLine base entry ++ rest) ≠ link (linkOf base entry) ++ ms := by
  obtain ⟨xs, ys, hsplit, hxs⟩ := List.eq_append_cons_of_mem h
  have hvalue := scan_trans scan_link_open
    (@scan_quoted xs [] (Bytes.ofString "href") ⟨false, Bytes.ofString "a", []⟩ 34 hxs)
  have hline : listingLine base entry ++ rest = (Bytes.ofString "<a href=\"" ++ (xs ++ [34])) ++
      (ys ++ 34 :: 62 :: (listedName entry ++ 60 :: Bytes.ofString "/a>") ++ rest) := by
    rw [listingLine_eq, hsplit]
    simp
  rw [hline, run_append hvalue]
  intro he
  have htag :
      (State.afterQuotedValue (Tag.with ⟨false, Bytes.ofString "a", []⟩ (Bytes.ofString "href") ([] ++ xs))).tag? =
        some (Tag.with ⟨false, Bytes.ofString "a", []⟩ (Bytes.ofString "href") ([] ++ xs)) := rfl
  rcases run_tag htag (ys ++ 34 :: 62 :: (listedName entry ++ 60 :: Bytes.ofString "/a>") ++ rest) with
    hnil | ⟨t, ms', hrun, -, hattrs⟩
  · rw [hnil] at he
    cases he
  · rw [hrun] at he
    have ht : t = ⟨false, Bytes.ofString "a", [(Bytes.ofString "href", linkOf base entry)]⟩ :=
      Markup.tag.inj (List.cons.inj he).1
    rw [ht] at hattrs
    -- the value that was ended early is not the whole link
    have hvalue : xs = linkOf base entry := by simpa [Tag.with] using hattrs
    have hlen := congrArg List.length hvalue
    rw [hsplit, List.length_append, List.length_cons] at hlen
    omega

/-- The only slash of a listed name is at the end, of the name of a directory. -/
theorem eq_nil_of_slash {xs ys : Bytes} (hname : '/' ∉ entry.1) (h : listedName entry = xs ++ 60 :: 47 :: ys) :
    ys = [] := by
  have hbyte : 47 ∉ utf8 entry.1 := fun hmem => hname ((mem_utf8_iff (by decide) (by decide)).mp hmem)
  rcases List.eq_nil_or_concat ys with hnil | ⟨zs, z, rfl⟩
  · exact hnil
  · exfalso
    apply hbyte
    unfold listedName at h
    cases hdir : entry.2 with
    | false =>
      rw [hdir] at h
      have hall : utf8 entry.1 = xs ++ 60 :: 47 :: zs.concat z := (List.append_nil _).symm.trans h
      rw [hall]
      simp
    | true =>
      rw [hdir] at h
      have hlast : utf8 entry.1 ++ [47] = (xs ++ 60 :: 47 :: zs) ++ [z] := h.trans (by simp)
      rw [(List.append_inj' hlast rfl).1]
      simp

/-- Markup in the name comes before the end of the link. -/
theorem run_opened (hname : '/' ∉ entry.1) (hquote : 34 ∉ linkOf base entry) (htext : isText (listedName entry) = false)
    (rest : Bytes) (ms : List Markup) :
    run .data (listingLine base entry ++ rest) ≠ link (linkOf base entry) ++ ms := by
  obtain ⟨xs, b, ys, hsplit, hxs, hb⟩ := exists_opening htext
  have hline : listingLine base entry ++ rest =
      (Bytes.ofString "<a href=\"" ++ (linkOf base entry ++ [34]) ++ [62]) ++
        (xs ++ 60 :: b :: (ys ++ Bytes.ofString "</a>" ++ rest)) := by
    have hclose : Bytes.ofString "</a>" = 60 :: Bytes.ofString "/a>" := by decide
    rw [listingLine_eq, hsplit, hclose]
    simp
  rw [hline, run_append (scan_startTag hquote), run_text_append hxs]
  intro he
  have hnext := (List.cons.inj he).2
  by_cases hslash : b = 47
  · rw [hslash] at hsplit hnext
    rw [eq_nil_of_slash hname hsplit] at hnext
    obtain ⟨text, ms', hrun⟩ := run_slash_open (Bytes.ofString "/a>" ++ rest)
    exact absurd (hrun.symm.trans hnext) (by simp [endTag])
  · rcases run_opening hb hslash (ys ++ Bytes.ofString "</a>" ++ rest) with
      hnil | ⟨t, ms', hrun, ht⟩ | ⟨text, ms', hrun⟩
    · exact absurd (hnil.symm.trans hnext) (by simp)
    · have htag := Markup.tag.inj (List.cons.inj (hrun.symm.trans hnext)).1
      rw [htag] at ht
      cases ht
    · exact absurd (hrun.symm.trans hnext) (by simp [endTag])

/-! ## Pages -/

theorem run_foot : run .data (Bytes.ofString "<hr></body></html>") = footMarkup := by decide

/-- **The links** are those of the entries if each link has its own markup and no other. -/
theorem run_entries_iff (hnames : ∀ entry ∈ entries, '/' ∉ entry.1) :
    run .data (entries.flatMap (listingLine base) ++ Bytes.ofString "<hr></body></html>") =
        entries.flatMap (fun entry => link (linkOf base entry)) ++ footMarkup ↔
      ∀ entry ∈ entries, 34 ∉ linkOf base entry ∧ isText (listedName entry) = true := by
  induction entries with
  | nil => simp [run_foot]
  | cons entry entries ih =>
    have hrest := ih fun e he => hnames e (List.mem_cons_of_mem _ he)
    rw [List.flatMap_cons, List.flatMap_cons, List.append_assoc, List.append_assoc, List.forall_mem_cons]
    by_cases hquote : 34 ∈ linkOf base entry
    · exact iff_of_false (run_quote hquote _ _) fun h => h.1.1 hquote
    · cases htext : isText (listedName entry) with
      | false =>
        refine iff_of_false (run_opened (hnames entry List.mem_cons_self) hquote htext _ _) fun h => ?_
        cases h.1.2
      | true =>
        rw [run_append (scan_listingLine hquote htext), List.append_cancel_left_eq, hrest]
        exact ⟨fun h => ⟨⟨hquote, rfl⟩, h⟩, fun h => h.2⟩

/-- A link without a quote, by its base and its name. -/
theorem quote_not_mem_linkOf : 34 ∉ linkOf base entry ↔ 34 ∉ base ∧ '"' ∉ entry.1 := by
  have hsuffix : 34 ∉ Bytes.ofString (if entry.2 then "/" else "") := by
    cases entry.2 <;> decide
  have hname : 34 ∈ utf8 entry.1 ↔ '"' ∈ entry.1 := mem_utf8_iff (by decide) (by decide)
  simp only [linkOf, listedName, List.mem_append, List.mem_cons, not_or, hname]
  constructor
  · exact fun h => ⟨h.1, h.2.2.1⟩
  · exact fun h => ⟨h.1, by decide, h.2, hsuffix⟩

theorem not_mem_trimEndSlashes {b : UInt8} (h : b ∉ urlPath) : b ∉ trimEndSlashes urlPath := by
  intro hmem
  rw [trimEndSlashes, List.mem_reverse] at hmem
  exact h (List.mem_reverse.mp ((List.dropWhile_suffix _).subset hmem))

/-- The page up to the entries. -/
theorem scan_template (h : 60 ∉ base) :
    scan .data (Bytes.ofString "<!DOCTYPE html><html><head><title>Index of " ++ base ++
        Bytes.ofString ("</title>" ++
          "<style>body\x7bfont-family:monospace;padding:1em\x7da\x7bdisplay:block;margin:.2em 0\x7d</style></head>" ++
          "<body><h1>Index of ") ++ base ++ Bytes.ofString "</h1><hr>" ++
        (if base.isEmpty then [] else Bytes.ofString "<a href=\"../\">../</a>")) =
      (.data, topMarkup ++ headMarkup ++ headingMarkup ++
        (if base.isEmpty then [] else link (Bytes.ofString "../"))) := by
  have htop : scan .data (Bytes.ofString "<!DOCTYPE html><html><head><title>Index of ") = (.data, topMarkup) := by
    decide
  have hhead : scan .data (Bytes.ofString ("</title>" ++
      "<style>body\x7bfont-family:monospace;padding:1em\x7da\x7bdisplay:block;margin:.2em 0\x7d</style></head>" ++
      "<body><h1>Index of ")) = (.data, headMarkup) := by decide +kernel
  have hheading : scan .data (Bytes.ofString "</h1><hr>") = (.data, headingMarkup) := by decide
  have hup : scan .data (if base.isEmpty then [] else Bytes.ofString "<a href=\"../\">../</a>") =
      (.data, if base.isEmpty then [] else link (Bytes.ofString "../")) := by
    cases base.isEmpty with
    | true => rfl
    | false => decide
  have htext := isText_of_not_mem h
  have h1 := scan_trans htop (scan_text_before htext (by decide +kernel) hhead)
  have h2 := scan_trans h1 (scan_text_before htext (by decide) hheading)
  have h3 := scan_trans h2 hup
  simpa only [List.append_assoc] using h3

/-- **Which listings keep the markup of the template.** With a URL path without `<`, which
`hyper` does not accept, a listing has one link for each entry and no other markup exactly
when it is empty or the path has no quote, and no name has a quote or a `<` that opens
markup. -/
theorem uninjected_iff (C : Crates) (fs : FileSystem) (dir urlPath : Bytes) (hurl : 60 ∉ urlPath)
    (hnames : ∀ entry ∈ fs.readDir dir, FileName entry.1) :
    Uninjected C fs dir urlPath ↔
      (fs.readDir dir = [] ∨ 34 ∉ trimEndSlashes urlPath) ∧ ∀ entry ∈ fs.readDir dir, harmless entry = true := by
  have hbase := not_mem_trimEndSlashes hurl
  have hmem : ∀ entry, entry ∈ (fs.readDir dir).mergeSort nameLe ↔ entry ∈ fs.readDir dir := fun entry =>
    List.mem_mergeSort
  have hslash : ∀ entry ∈ (fs.readDir dir).mergeSort nameLe, '/' ∉ entry.1 := fun entry he =>
    (hnames entry ((hmem entry).mp he)).no_slash
  have hgood : (∀ entry ∈ (fs.readDir dir).mergeSort nameLe,
        34 ∉ linkOf (trimEndSlashes urlPath) entry ∧ isText (listedName entry) = true) ↔
      (fs.readDir dir = [] ∨ 34 ∉ trimEndSlashes urlPath) ∧ ∀ entry ∈ fs.readDir dir, harmless entry = true := by
    simp only [hmem, quote_not_mem_linkOf, harmless, Bool.and_eq_true, decide_eq_true_eq]
    constructor
    · intro h
      refine ⟨?_, fun entry he => ⟨(h entry he).1.2, (h entry he).2⟩⟩
      cases hlist : fs.readDir dir with
      | nil => exact .inl rfl
      | cons entry entries => exact .inr (h entry (by rw [hlist]; exact List.mem_cons_self)).1.1
    · rintro ⟨hlist | hquote, h⟩ entry he
      · rw [hlist] at he
        cases he
      · exact ⟨⟨hquote, (h entry he).1⟩, (h entry he).2⟩
  rw [← hgood, ← run_entries_iff hslash]
  unfold Uninjected directoryListing
  dsimp only
  rw [Response.build_of_plain (by decide)]
  simp only [Except.ok.injEq, exists_eq_left']
  have hpage := run_append (scan_template hbase) (((fs.readDir dir).mergeSort nameLe).flatMap
    (listingLine (trimEndSlashes urlPath)) ++ Bytes.ofString "<hr></body></html>")
  rw [markup, listingMarkup, List.append_assoc _ _ footMarkup,
    List.append_assoc _ _ (Bytes.ofString "<hr></body></html>"), hpage, List.append_cancel_left_eq]

/-- A directory with one file. -/
def listed (name : Text) : FileSystem := ⟨fun _ => none, fun _ => none, fun _ => [(name, false)]⟩

/-- An ampersand, a `>` and a `<` before a space are harmless. -/
theorem uninjected_iff_marks :
    Uninjected .sample (listed "a & b < c>".toList) (Bytes.ofString "/srv") (Bytes.ofString "/") :=
  (uninjected_iff .sample (listed "a & b < c>".toList) (Bytes.ofString "/srv") (Bytes.ofString "/") (by decide) (by
    intro entry he
    obtain rfl := List.mem_singleton.mp he
    exact ⟨by decide, by decide, by decide, by decide⟩)).mpr
    ⟨.inr (by decide), fun entry he => by obtain rfl := List.mem_singleton.mp he; decide⟩

/-- **Markup in a name, and a quote in the URL path.** A file `<script>` puts a tag into the
listing, and under the path `/"/..` of the root a link loses the rest of its attribute. -/
theorem listing_injected :
    (60 ∉ Bytes.ofString "/" ∧ FileName "<script>".toList ∧
        ¬ Uninjected .sample (listed "<script>".toList) (Bytes.ofString "/srv") (Bytes.ofString "/")) ∧
      60 ∉ Bytes.ofString "/\"/.." ∧ FileName "a".toList ∧
        ¬ Uninjected .sample (listed "a".toList) (Bytes.ofString "/srv") (Bytes.ofString "/\"/..") := by
  refine ⟨⟨by decide, ⟨by decide, by decide, by decide, by decide⟩, ?_⟩, by decide,
    ⟨by decide, by decide, by decide, by decide⟩, ?_⟩
  · rintro ⟨resp, hresp, hmarkup⟩
    obtain rfl := Except.ok.inj hresp
    exact absurd hmarkup (by decide +kernel)
  · rintro ⟨resp, hresp, hmarkup⟩
    obtain rfl := Except.ok.inj hresp
    exact absurd hmarkup (by decide +kernel)

end StaticFileServer

end Curf
