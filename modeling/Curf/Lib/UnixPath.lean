import Mathlib.Data.List.TakeWhile

/-!
# Unix paths

Paths as the standard library of the modelled language has them: lists over an
alphabet with a separator and a dot, read through their `components`. Repeated
separators and single dots are not seen, but for a dot in front. `push` and
`parent` work on the text of a path; `components_push` and `components_parent` say
what they do to its components.
-/

namespace Lib

/-- An alphabet in which paths are written. -/
class PathAlphabet (α : Type) where
  sep : α
  dot : α
  sep_ne_dot : sep ≠ dot

namespace UnixPath

export PathAlphabet (sep dot sep_ne_dot)

inductive Component (α : Type) where
  /-- A drive or share; no Unix path has one. -/
  | drivePrefix (text : List α)
  | rootDir
  | curDir
  | parentDir
  | normal (name : List α)
  deriving DecidableEq, Repr

variable {α : Type} [DecidableEq α] [PathAlphabet α]

/-- How a path begins. -/
inductive Lead where
  | relative
  /-- With a separator. -/
  | root
  /-- With a dot that is a segment of its own. -/
  | cur
  deriving DecidableEq, Repr

def Lead.text : Lead → List α
  | .relative => []
  | .root => [sep]
  | .cur => [dot]

def Lead.components : Lead → List (Component α)
  | .relative => []
  | .root => [.rootDir]
  | .cur => [.curDir]

def lead : List α → Lead
  | [] => .relative
  | a :: p =>
    if a = sep then .root
    else if a = dot ∧ (p = [] ∨ p.head? = some sep) then .cur
    else .relative

/-- The path without its lead. -/
def body (p : List α) : List α := p.drop ((lead p).text : List α).length

/-- The pieces of the body between separators. -/
def segments (p : List α) : List (List α) := (body p).splitOn sep

/-- The component a segment stands for, if any. -/
def single (s : List α) : Option (Component α) :=
  if s = [] ∨ s = [dot] then none
  else if s = [dot, dot] then some .parentDir
  else some (.normal s)

def components (p : List α) : List (Component α) := (lead p).components ++ (segments p).filterMap single

/-- The path with a given lead and segments. -/
def render (l : Lead) (ss : List (List α)) : List α := l.text ++ [sep].intercalate ss

/-- Whether a segment stands for no component. -/
def blank (s : List α) : Bool := (single s).isNone

/-- The path without its last component, which must not be the root; what is left
ends with a component. -/
def parent (p : List α) : Option (List α) :=
  match (segments p).reverse.dropWhile blank with
  | [] => if lead p = .cur then some [] else none
  | _ :: rest => some (render (lead p) (rest.dropWhile blank).reverse)

def isAbsolute (p : List α) : Bool := lead p = .root

/-- Extend `p` by `x`, with a separator in between if one is missing; an absolute
`x` replaces `p`. -/
def push (p x : List α) : List α :=
  if isAbsolute x then x
  else if p ≠ [] ∧ p.getLast? ≠ some sep then p ++ sep :: x
  else p ++ x

/-- Whether the components of `q` are the first of those of `p`. -/
def startsWith (p q : List α) : Bool := (components q).isPrefixOf (components p)

/-- A text that is a normal component. -/
structure IsName (x : List α) : Prop where
  no_sep : sep ∉ x
  single_eq : single x = some (.normal x)

variable {p q x s : List α} {l : Lead} {ss : List (List α)}

/-! ## Leads and segments -/

theorem lead_eq_root_iff : lead p = .root ↔ p.head? = some sep := by
  cases p with
  | nil => simp [lead]
  | cons a p =>
    by_cases ha : a = sep
    · simp [lead, ha]
    · by_cases hd : a = dot ∧ (p = [] ∨ p.head? = some sep)
      · simp only [lead, if_neg ha, if_pos hd]; simp [ha]
      · simp only [lead, if_neg ha, if_neg hd]; simp [ha]

theorem lead_eq_cur_iff :
    lead p = .cur ↔ ∃ p', p = dot :: p' ∧ (p' = [] ∨ p'.head? = some sep) := by
  cases p with
  | nil => simp [lead]
  | cons a p =>
    by_cases ha : a = sep
    · subst ha
      simp [lead, sep_ne_dot]
    · by_cases hd : a = dot ∧ (p = [] ∨ p.head? = some sep)
      · simp only [lead, if_neg ha, if_pos hd]
        exact ⟨fun _ => ⟨p, by rw [hd.1], hd.2⟩, fun _ => trivial⟩
      · simp only [lead, if_neg ha, if_neg hd]
        refine ⟨nofun, ?_⟩
        rintro ⟨p', hp', h⟩
        obtain ⟨rfl, rfl⟩ := List.cons.inj hp'
        exact absurd ⟨rfl, h⟩ hd

theorem text_append_body (p : List α) : (lead p).text ++ body p = p := by
  unfold body
  cases hl : lead p with
  | relative => rfl
  | root =>
    obtain ⟨q, rfl⟩ := List.head?_eq_some_iff.mp (lead_eq_root_iff.mp hl)
    rfl
  | cur =>
    obtain ⟨q, rfl, -⟩ := lead_eq_cur_iff.mp hl
    rfl

theorem render_segments (p : List α) : render (lead p) (segments p) = p := by
  rw [render, segments, List.intercalate_splitOn, text_append_body]

/-- A separator after a path does not change how it begins. -/
theorem lead_append (hp : p ≠ []) : lead (p ++ sep :: x) = lead p := by
  cases p with
  | nil => exact absurd rfl hp
  | cons a p =>
    simp only [List.cons_append, lead]
    cases p with
    | nil => simp
    | cons b p => simp

theorem body_append (hp : p ≠ []) : body (p ++ sep :: x) = body p ++ sep :: x := by
  have h := text_append_body (p ++ sep :: x)
  rw [lead_append hp] at h
  refine List.append_cancel_left (h.trans ?_)
  rw [← List.append_assoc, text_append_body]

theorem segments_append (hp : p ≠ []) : segments (p ++ sep :: x) = segments p ++ x.splitOn sep := by
  rw [segments, body_append hp, List.splitOn_append_cons_self]; rfl

theorem components_append (hp : p ≠ []) :
    components (p ++ sep :: x) = components p ++ (x.splitOn sep).filterMap single := by
  rw [components, lead_append hp, segments_append hp, List.filterMap_append, ← List.append_assoc]; rfl

theorem components_nil : components ([] : List α) = [] := by
  simp [components, lead, Lead.components, segments, body, single]

theorem components_sep_cons (x : List α) :
    components (sep :: x) = .rootDir :: (x.splitOn sep).filterMap single := by
  have hl : lead (sep :: x) = .root := lead_eq_root_iff.mpr rfl
  have hb : body (sep :: x) = x := by rw [body, hl]; rfl
  rw [components, segments, hl, hb]; rfl

omit [PathAlphabet α] in
/-- A piece of a list is part of it and has no mark. -/
theorem of_mem_splitOn {a : α} {xs : List α} (h : s ∈ xs.splitOn a) : a ∉ s ∧ s.Sublist xs := by
  induction xs generalizing s with
  | nil => simp at h; simp [h]
  | cons x xs ih =>
    rw [List.splitOn_cons_eq_if_modifyHead] at h
    split at h
    · rcases List.mem_cons.mp h with rfl | h
      · exact ⟨List.not_mem_nil, List.nil_sublist _⟩
      · exact ⟨(ih h).1, (ih h).2.cons x⟩
    · rename_i hx
      cases hs : xs.splitOn a with
      | nil => exact absurd hs (List.splitOn_ne_nil _ _)
      | cons t ts =>
        rw [hs] at h ih
        rcases List.mem_cons.mp h with rfl | h
        · obtain ⟨hmark, hpart⟩ := ih List.mem_cons_self
          rw [List.mem_cons, not_or]
          exact ⟨⟨fun he => hx (by simp [he]), hmark⟩, hpart.cons_cons x⟩
        · obtain ⟨hmark, hpart⟩ := ih (List.mem_cons_of_mem _ h)
          exact ⟨hmark, hpart.cons x⟩

/-! ## Names -/

theorem IsName.splitOn (h : IsName x) : x.splitOn sep = [x] := List.splitOn_eq_singleton h.no_sep

theorem IsName.filterMap_splitOn (h : IsName x) : (x.splitOn sep).filterMap single = [.normal x] := by
  rw [h.splitOn, List.filterMap_cons, h.single_eq]; rfl

theorem IsName.lead_eq (h : IsName x) : lead x = .relative := by
  cases hl : lead x with
  | relative => rfl
  | root => exact absurd (List.mem_of_mem_head? (by rw [lead_eq_root_iff.mp hl]; rfl)) h.no_sep
  | cur =>
    obtain ⟨x', rfl, rfl | hs⟩ := lead_eq_cur_iff.mp hl
    · have := h.single_eq
      simp [single] at this
    · have hmem : sep ∈ x' := List.mem_of_mem_head? (by rw [hs]; rfl)
      exact absurd (List.mem_cons_of_mem _ hmem) h.no_sep

theorem IsName.components_eq (h : IsName x) : components x = [.normal x] := by
  rw [components, segments, body, h.lead_eq]
  exact h.filterMap_splitOn

/-- A segment with two dots leads up, any other one that is a component is a name. -/
theorem single_cases {c : Component α} (h : single s = some c) :
    (s = [dot, dot] ∧ c = .parentDir) ∨ c = .normal s := by
  unfold single at h
  split at h
  · cases h
  · split at h
    · rename_i hs
      exact .inl ⟨hs, (Option.some.inj h).symm⟩
    · exact .inr (Option.some.inj h).symm

theorem single_eq_normal (h : single s = some (.normal x)) : s = x := by
  obtain ⟨-, he⟩ | he := single_cases h
  · cases he
  · exact (Component.normal.inj he).symm

/-- The names of a path are its segments. -/
theorem segment_of_normal (h : .normal x ∈ components p) : x ∈ segments p ∧ single x = some (.normal x) := by
  rcases List.mem_append.mp h with h | h
  · cases hl : lead p <;> simp [hl, Lead.components] at h
  · obtain ⟨s, hs, hx⟩ := List.mem_filterMap.mp h
    obtain rfl := single_eq_normal hx
    exact ⟨hs, hx⟩

/-- The normal components of a path are names. -/
theorem isName_of_mem_components (h : .normal x ∈ components p) : IsName x := by
  obtain ⟨hs, hx⟩ := segment_of_normal h
  exact ⟨(of_mem_splitOn hs).1, hx⟩

/-- A name is made of what the path is made of. -/
theorem mem_of_mem_name {a : α} (ha : a ∈ x) (h : .normal x ∈ components p) : a ∈ p := by
  obtain ⟨hs, -⟩ := segment_of_normal h
  exact List.mem_of_mem_drop (((of_mem_splitOn hs).2).subset ha)

/-- A Unix path has no drive. -/
theorem drivePrefix_not_mem_components (t : List α) : .drivePrefix t ∉ components p := by
  intro h
  rcases List.mem_append.mp h with h | h
  · cases hl : lead p <;> simp [hl, Lead.components] at h
  · obtain ⟨s, -, hs⟩ := List.mem_filterMap.mp h
    obtain ⟨-, he⟩ | he := single_cases hs <;> cases he

/-- **Pushing a name** adds it to the components. -/
theorem components_push (p : List α) (h : IsName x) : components (push p x) = components p ++ [.normal x] := by
  have habs : isAbsolute x = false := by simp [isAbsolute, h.lead_eq]
  rw [push, habs, if_neg Bool.false_ne_true]
  split
  · rename_i hp
    rw [components_append hp.1, h.filterMap_splitOn]
  · rename_i hp
    by_cases hnil : p = []
    · subst hnil
      rw [List.nil_append, h.components_eq, components_nil, List.nil_append]
    · have hlast : p.getLast? = some sep := Classical.byContradiction fun hne => hp ⟨hnil, hne⟩
      obtain ⟨q, rfl⟩ := List.getLast?_eq_some_iff.mp hlast
      rw [List.append_assoc]
      show components (q ++ sep :: x) = components (q ++ sep :: []) ++ [.normal x]
      by_cases hq : q = []
      · subst hq
        rw [List.nil_append, List.nil_append, components_sep_cons, components_sep_cons, h.filterMap_splitOn]
        rfl
      · rw [components_append hq, components_append hq, h.filterMap_splitOn]
        simp [single]

/-! ## Parents -/

/-- The leads and segments that are those of some path. -/
structure Shape (l : Lead) (ss : List (List α)) : Prop where
  ne_nil : ss ≠ []
  no_sep : ∀ s ∈ ss, sep ∉ s
  relative : l = .relative → ss.head? ≠ some [dot] ∧ (ss.head? = some [] → ss = [[]])
  cur : l = .cur → ss.head? = some []

theorem shape_segments (p : List α) : Shape (lead p) (segments p) := by
  have hr := render_segments p
  refine ⟨List.splitOn_ne_nil _ _, fun s hs => (of_mem_splitOn hs).1, fun hl => ⟨fun hd => ?_, fun he => ?_⟩,
    fun hl => ?_⟩
  · obtain ⟨ss, hss⟩ := List.head?_eq_some_iff.mp hd
    rw [hl, hss, render, Lead.text] at hr
    have : lead p = .cur := by
      rw [lead_eq_cur_iff, ← hr]
      cases ss <;> simp [List.intercalate]
    rw [hl] at this
    cases this
  · obtain ⟨ss, hss⟩ := List.head?_eq_some_iff.mp he
    cases ss with
    | nil => exact hss
    | cons t ts =>
      rw [hl, hss, render, Lead.text] at hr
      have : lead p = .root := by
        rw [lead_eq_root_iff, ← hr]
        simp [List.intercalate]
      rw [hl] at this
      cases this
  · obtain ⟨p', rfl, h⟩ := lead_eq_cur_iff.mp hl
    have hb : body (dot :: p') = p' := by rw [body, hl]; rfl
    rw [segments, hb]
    rcases h with rfl | h
    · rfl
    · obtain ⟨p'', rfl⟩ := List.head?_eq_some_iff.mp h
      rw [List.splitOn_cons_eq_if_modifyHead]
      simp

omit [DecidableEq α] in
theorem Shape.of_append {ts : List (List α)} (h : Shape l (ss ++ ts)) (hne : ss ≠ []) : Shape l ss := by
  have hhead : (ss ++ ts).head? = ss.head? := by
    cases ss with
    | nil => exact absurd rfl hne
    | cons => rfl
  refine ⟨hne, fun s hs => h.no_sep s (List.mem_append_left _ hs), fun hl => ?_, fun hl => ?_⟩
  · obtain ⟨h1, h2⟩ := h.relative hl
    rw [hhead] at h1 h2
    refine ⟨h1, fun he => ?_⟩
    have := h2 he
    cases ss with
    | nil => exact absurd rfl hne
    | cons s ss' =>
      obtain ⟨rfl, hnil⟩ := List.cons.inj this
      rw [(List.append_eq_nil_iff.mp hnil).1]
  · rw [← hhead]; exact h.cur hl

theorem Shape.lead_render (h : Shape l ss) : lead (render l ss) = l := by
  obtain ⟨s, ts, rfl⟩ := List.exists_cons_of_ne_nil h.ne_nil
  cases l with
  | root => exact lead_eq_root_iff.mpr rfl
  | cur =>
    obtain rfl : s = [] := Option.some.inj (h.cur rfl)
    rw [lead_eq_cur_iff]
    refine ⟨_, rfl, ?_⟩
    cases ts <;> simp [List.intercalate]
  | relative =>
    obtain ⟨hdot, hnil⟩ := h.relative rfl
    cases s with
    | nil =>
      rw [hnil rfl]; rfl
    | cons a s =>
      have ha : a ≠ sep := fun he => h.no_sep (a :: s) List.mem_cons_self (by simp [he])
      cases hl : lead (render .relative ((a :: s) :: ts)) with
      | relative => rfl
      | root =>
        rw [lead_eq_root_iff] at hl
        cases ts <;> simp [render, Lead.text, List.intercalate, ha] at hl
      | cur =>
        obtain ⟨p', hp', hp⟩ := lead_eq_cur_iff.mp hl
        cases s with
        | nil =>
          have : a = dot := by
            cases ts <;> simp [render, Lead.text, List.intercalate] at hp' <;> exact hp'.1
          exact absurd (by rw [this]; rfl) hdot
        | cons b s =>
          have hb : b ≠ sep := fun he => h.no_sep (a :: b :: s) List.mem_cons_self (by simp [he])
          have hhead : p'.head? = some b := by
            cases ts <;> simp [render, Lead.text, List.intercalate] at hp' <;> rw [← hp'.2] <;> rfl
          rw [hhead] at hp
          rcases hp with rfl | hp
          · cases hhead
          · exact absurd (Option.some.inj hp) hb

theorem Shape.components_render (h : Shape l ss) :
    components (render l ss) = l.components ++ ss.filterMap single := by
  have hb : body (render l ss) = [sep].intercalate ss := by
    have := text_append_body (render l ss)
    rw [h.lead_render] at this
    exact List.append_cancel_left this
  rw [components, segments, hb, h.lead_render, List.splitOn_intercalate sep h.no_sep h.ne_nil]

theorem filterMap_blank (h : ∀ s ∈ ss, blank s = true) : ss.filterMap single = [] := by
  rw [List.filterMap_eq_nil_iff]
  exact fun s hs => Option.isNone_iff_eq_none.mp (h s hs)

/-- Blank segments at the end carry no component. -/
theorem filterMap_dropWhile_reverse (ss : List (List α)) :
    (ss.dropWhile blank).reverse.filterMap single = ss.reverse.filterMap single := by
  have h : (ss.takeWhile blank).reverse.filterMap single = [] :=
    filterMap_blank fun s hs => by
      rw [List.mem_reverse] at hs
      exact List.all_eq_true.mp List.all_takeWhile s hs
  conv => rhs; rw [← List.takeWhile_append_dropWhile (p := blank) (l := ss), List.reverse_append,
    List.filterMap_append, h, List.append_nil]

/-- **The parent** has the components of the path but the last. -/
theorem components_parent (h : parent p = some q) : components q = (components p).dropLast := by
  unfold parent at h
  have hall := filterMap_dropWhile_reverse (segments p).reverse
  rw [List.reverse_reverse] at hall
  have hp : components p = (lead p).components ++
      ((segments p).reverse.dropWhile blank).reverse.filterMap single := by rw [hall]; rfl
  rw [hp]
  split at h
  · rename_i hb
    split at h
    · rename_i hl
      cases h
      rw [hb, hl, components_nil]; rfl
    · cases h
  · rename_i s rest hb
    cases h
    have hs : (single s).isSome = true := by
      have := List.head?_dropWhile_not blank (segments p).reverse
      rw [hb] at this
      simpa [blank] using this
    obtain ⟨c, hc⟩ := Option.isSome_iff_exists.mp hs
    rw [hb, List.reverse_cons, List.filterMap_append, ← filterMap_dropWhile_reverse rest,
      ← List.append_assoc, List.filterMap_cons, hc, List.filterMap_nil, List.dropLast_concat]
    have hsplit : ∃ ts, segments p = (rest.dropWhile blank).reverse ++ ts := by
      refine ⟨((segments p).reverse.takeWhile blank ++ s :: rest.takeWhile blank).reverse, ?_⟩
      rw [← List.reverse_append, List.append_assoc, List.cons_append, List.takeWhile_append_dropWhile,
        ← hb, List.takeWhile_append_dropWhile, List.reverse_reverse]
    obtain ⟨ts, hts⟩ := hsplit
    have hshape := shape_segments p
    by_cases hnil : (rest.dropWhile blank).reverse = []
    · have hone : Shape (lead p) ([[]] : List (List α)) :=
        ⟨List.cons_ne_nil _ _, by simp, fun _ => by simp, fun _ => rfl⟩
      rw [hnil]
      exact hone.components_render
    · rw [hts] at hshape
      exact (hshape.of_append hnil).components_render

/-- Only a path without names and `..` has no parent. -/
theorem parent_eq_none_iff : parent p = none ↔ components p = [] ∨ components p = [.rootDir] := by
  have hblank : (segments p).reverse.dropWhile blank = [] ↔ (segments p).filterMap single = [] := by
    rw [List.dropWhile_eq_nil_iff, List.filterMap_eq_nil_iff]
    simp only [List.mem_reverse, blank, Option.isNone_iff_eq_none]
  unfold parent
  split
  · rename_i hb
    have hnil := hblank.mp hb
    rw [components, hnil, List.append_nil]
    cases lead p <;> simp [Lead.components]
  · rename_i s rest hb
    have hne : (segments p).filterMap single ≠ [] := by
      rw [Ne, ← hblank, hb]
      exact List.cons_ne_nil s rest
    refine iff_of_false nofun ?_
    obtain ⟨c, cs, hc⟩ := List.exists_cons_of_ne_nil hne
    have hroot : c ≠ .rootDir := by
      rintro rfl
      have hmem : Component.rootDir ∈ (segments p).filterMap single := by rw [hc]; exact List.mem_cons_self
      obtain ⟨s, -, hs⟩ := List.mem_filterMap.mp hmem
      obtain ⟨-, he⟩ | he := single_cases hs <;> cases he
    rw [components, hc]
    cases lead p <;> simp [Lead.components, hroot]

/-! ## The names of a path -/

/-- The names among the components. -/
def Component.name? : Component α → Option (List α)
  | .normal n => some n
  | _ => none

/-- The names of a path. -/
def names (p : List α) : List (List α) := (components p).filterMap Component.name?

/-- An absolute path without `..` is the root and its names. -/
theorem components_eq_names (habs : isAbsolute p = true) (hparent : .parentDir ∉ components p) :
    components p = .rootDir :: (names p).map .normal := by
  have hl : lead p = .root := of_decide_eq_true habs
  have hall : ∀ ss : List (List α), .parentDir ∉ ss.filterMap single →
      ss.filterMap single = ((ss.filterMap single).filterMap Component.name?).map .normal := by
    intro ss
    induction ss with
    | nil => exact fun _ => rfl
    | cons s ss ih =>
      intro h
      rw [List.filterMap_cons] at h ⊢
      cases hs : single s with
      | none => rw [hs] at h; exact ih h
      | some c =>
        rw [hs] at h
        obtain ⟨hne, hrest⟩ := not_or.mp (mt List.mem_cons.mpr h)
        have hc : c = .normal s := by
          obtain ⟨-, he⟩ | he := single_cases hs
          · exact absurd he.symm hne
          · exact he
        rw [hc, List.filterMap_cons]
        exact congrArg _ (ih hrest)
  have hsegments : .parentDir ∉ (segments p).filterMap single := by
    intro h
    exact hparent (List.mem_append_right _ h)
  rw [names, components, hl]
  exact congrArg _ (hall _ hsegments)

/-! ## Parent components -/

omit [DecidableEq α] [PathAlphabet α] in
theorem intercalate_append (a : α) {xs ys : List (List α)} (hx : xs ≠ []) (hy : ys ≠ []) :
    [a].intercalate (xs ++ ys) = [a].intercalate xs ++ a :: [a].intercalate ys := by
  induction xs with
  | nil => exact absurd rfl hx
  | cons x xs ih =>
    cases xs with
    | nil =>
      obtain ⟨y, ys, rfl⟩ := List.exists_cons_of_ne_nil hy
      simp [List.intercalate]
    | cons x' xs =>
      rw [List.cons_append, List.cons_append, List.intercalate_cons_cons, List.intercalate_cons_cons,
        ← List.cons_append, ih (List.cons_ne_nil _ _)]
      simp

theorem single_eq_parentDir (h : single s = some .parentDir) : s = [dot, dot] := by
  obtain ⟨hs, -⟩ | he := single_cases h
  · exact hs
  · cases he

/-- **Two dots** that are a component stand between separators or the ends of the path. -/
theorem exists_of_parentDir_mem (h : .parentDir ∈ components p) :
    ∃ x y, p = x ++ dot :: dot :: y ∧ (x = [] ∨ [sep] <:+ x) ∧ (y = [] ∨ [sep] <+: y) := by
  have hs : [dot, dot] ∈ segments p := by
    rcases List.mem_append.mp h with h | h
    · cases hl : lead p <;> simp [hl, Lead.components] at h
    · obtain ⟨s, hs, hp⟩ := List.mem_filterMap.mp h
      rwa [single_eq_parentDir hp] at hs
  obtain ⟨pre, post, hsplit⟩ := List.append_of_mem hs
  have htail : ∃ y, [sep].intercalate ([dot, dot] :: post) = dot :: dot :: y ∧ (y = [] ∨ [sep] <+: y) := by
    cases post with
    | nil => exact ⟨[], rfl, .inl rfl⟩
    | cons t ts =>
      exact ⟨sep :: [sep].intercalate (t :: ts),
        intercalate_append sep (List.cons_ne_nil [dot, dot] []) (List.cons_ne_nil t ts), .inr ⟨_, rfl⟩⟩
  obtain ⟨y, hy, hback⟩ := htail
  have hp := render_segments p
  rw [hsplit, render] at hp
  by_cases hpre : pre = []
  · subst hpre
    rw [List.nil_append, hy] at hp
    refine ⟨(lead p).text, y, hp.symm, ?_, hback⟩
    cases hl : lead p with
    | relative => exact .inl rfl
    | root => exact .inr ⟨[], rfl⟩
    | cur =>
      have hhead := (shape_segments p).cur hl
      rw [hsplit] at hhead
      cases hhead
  · rw [intercalate_append sep hpre (List.cons_ne_nil _ _), hy] at hp
    refine ⟨(lead p).text ++ ([sep].intercalate pre ++ [sep]), y, ?_, .inr ?_, hback⟩
    · refine hp.symm.trans ?_
      simp only [List.append_assoc, List.singleton_append]
    · exact (List.suffix_append _ _).trans (List.suffix_append _ _)

/-- Two dots that are a component stand before a separator or end the path. -/
theorem text_of_parentDir_mem (h : .parentDir ∈ components p) :
    [dot, dot, sep] <:+: p ∨ p = [dot, dot] ∨ [sep, dot, dot] <:+ p := by
  obtain ⟨x, y, rfl, hx, rfl | ⟨y, rfl⟩⟩ := exists_of_parentDir_mem h
  · rcases hx with rfl | ⟨x, rfl⟩
    · exact .inr (.inl rfl)
    · exact .inr (.inr ⟨x, by rw [List.append_assoc]; rfl⟩)
  · exact .inl ⟨x, y, by rw [List.append_assoc]; rfl⟩

theorem filterMap_splitOn_parentDir :
    (([dot, dot] : List α).splitOn sep).filterMap single = [.parentDir] := by
  have hsep : (sep : α) ∉ [dot, dot] := by simp [sep_ne_dot]
  rw [List.splitOn_eq_singleton hsep]
  simp [single]

/-- Two dots at the end, after a separator or alone, are a component. -/
theorem parentDir_mem_of_suffix (h : p = [dot, dot] ∨ [sep, dot, dot] <:+ p) : .parentDir ∈ components p := by
  rcases h with rfl | ⟨x, rfl⟩
  · have hl : lead ([dot, dot] : List α) = .relative := by simp [lead, sep_ne_dot.symm]
    have hb : body ([dot, dot] : List α) = [dot, dot] := by rw [body, hl]; rfl
    rw [components, segments, hb, filterMap_splitOn_parentDir]
    exact List.mem_append_right _ List.mem_cons_self
  · show .parentDir ∈ components (x ++ sep :: [dot, dot])
    by_cases hx : x = []
    · subst hx
      rw [List.nil_append, components_sep_cons, filterMap_splitOn_parentDir]
      simp
    · rw [components_append hx, filterMap_splitOn_parentDir]
      simp

/-- Two dots between separators or ends are a component. -/
theorem parentDir_mem_iff : .parentDir ∈ components p ↔
    ∃ x y, p = x ++ dot :: dot :: y ∧ (x = [] ∨ [sep] <:+ x) ∧ (y = [] ∨ [sep] <+: y) := by
  refine ⟨exists_of_parentDir_mem, ?_⟩
  rintro ⟨x, y, rfl, hx, hy⟩
  have hfront : .parentDir ∈ components (x ++ [dot, dot]) := by
    refine parentDir_mem_of_suffix ?_
    rcases hx with rfl | ⟨x, rfl⟩
    · exact .inl rfl
    · exact .inr ⟨x, by rw [List.append_assoc]; rfl⟩
  rcases hy with rfl | ⟨y, rfl⟩
  · exact hfront
  · have hne : x ++ [dot, dot] ≠ [] := List.append_ne_nil_of_right_ne_nil x (List.cons_ne_nil dot [dot])
    have hcut : x ++ dot :: dot :: ([sep] ++ y) = (x ++ [dot, dot]) ++ sep :: y := by
      rw [List.append_assoc]
      rfl
    rw [hcut, components_append hne]
    exact List.mem_append_left _ hfront
/-! ## Pieces -/

/-- The components of what stands behind a separator. -/
def pieces (x : List α) : List (Component α) := (x.splitOn sep).filterMap single

@[simp] theorem pieces_nil : pieces ([] : List α) = [] := by simp [pieces, single]

theorem pieces_append (x y : List α) : pieces (x ++ sep :: y) = pieces x ++ pieces y := by
  rw [pieces, List.splitOn_append_cons_self, List.filterMap_append]
  rfl

/-- What stands behind a separator adds its components. -/
theorem components_append_pieces (p x : List α) :
    components (p ++ sep :: x) = components (p ++ [sep]) ++ pieces x := by
  have hnil : ((([] : List α).splitOn sep).filterMap single) = [] := pieces_nil
  by_cases hp : p = []
  · subst hp
    rw [List.nil_append, List.nil_append, components_sep_cons, components_sep_cons, hnil]
    rfl
  · rw [components_append hp, components_append hp, hnil, List.append_nil]
    rfl

theorem IsName.pieces_eq (h : IsName x) : pieces x = [.normal x] := h.filterMap_splitOn

/-- The names of the components are part of the text. -/
theorem sublist_of_mem_pieces {name : List α} (h : .normal name ∈ pieces x) : name.Sublist x ∧ IsName name := by
  obtain ⟨s, hs, hname⟩ := List.mem_filterMap.mp h
  obtain rfl := single_eq_normal hname
  exact ⟨(of_mem_splitOn hs).2, (of_mem_splitOn hs).1, hname⟩

/-- Behind a separator stand names and `..`. -/
theorem parentDir_or_normal_of_mem_pieces {c : Component α} (h : c ∈ pieces x) :
    c = .parentDir ∨ ∃ name, c = .normal name := by
  obtain ⟨s, -, hs⟩ := List.mem_filterMap.mp h
  exact (single_cases hs).imp And.right fun he => ⟨s, he⟩

theorem startsWith_iff : startsWith p q = true ↔ components q <+: components p :=
  List.isPrefixOf_iff_prefix

end UnixPath

end Lib
