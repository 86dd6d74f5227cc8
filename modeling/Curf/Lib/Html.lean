import Mathlib.Data.List.Infix

/-!
# Markup in HTML

The tokenizer of HTML, as a machine that reads a page byte by byte: `markup` is the list
of its tags with their attributes, and of its comments, among which declarations are
counted. Values are as they stand in the page, without character references; content is
read as data in all elements.

`scan_text` and `scan_quoted` say which texts and attribute values stay what they are.
`run_tag` and `run_comment` are what a text can come to that does not: from within a tag,
the next thing in the list is that tag, with the attributes that it has already.
-/

namespace Lib.Html

abbrev Attribute := List UInt8 × List UInt8

structure Tag where
  closing : Bool
  name : List UInt8
  attrs : List Attribute
  deriving DecidableEq, Repr

inductive Markup where
  | tag (t : Tag)
  | comment (data : List UInt8)
  deriving DecidableEq, Repr

inductive State where
  | data
  | tagOpen
  | endTagOpen
  | tagName (t : Tag)
  | beforeAttrName (t : Tag)
  | attrName (t : Tag) (name : List UInt8)
  | afterAttrName (t : Tag) (name : List UInt8)
  | beforeAttrValue (t : Tag) (name : List UInt8)
  | quotedValue (quote : UInt8) (t : Tag) (name value : List UInt8)
  | unquotedValue (t : Tag) (name value : List UInt8)
  | afterQuotedValue (t : Tag)
  | selfClosing (t : Tag)
  | declarationOpen
  | declarationDash
  | bogusComment (data : List UInt8)
  | commentStart
  | commentStartDash
  | comment (data : List UInt8)
  | commentEndDash (data : List UInt8)
  | commentEnd (data : List UInt8)
  | commentEndBang (data : List UInt8)
  deriving DecidableEq, Repr

/-- Tab, line feed, form feed, carriage return and space. -/
def isSpace (b : UInt8) : Bool := b = 9 || b = 10 || b = 12 || b = 13 || b = 32

def isLetter (b : UInt8) : Bool := (65 ≤ b && b ≤ 90) || (97 ≤ b && b ≤ 122)

def lower (b : UInt8) : UInt8 := if 65 ≤ b && b ≤ 90 then b + 32 else b

def Tag.with (t : Tag) (name value : List UInt8) : Tag := { t with attrs := t.attrs ++ [(name, value)] }

/-! ## Steps -/

/-- The state after a byte, and what it completes. -/
abbrev Next := State × Option Markup

def close (t : Tag) : Next := (.data, some (.tag t))

def stepData (b : UInt8) : Next := (if b = 60 then .tagOpen else .data, none)

def stepTagName (t : Tag) (b : UInt8) : Next :=
  if isSpace b then (.beforeAttrName t, none)
  else if b = 47 then (.selfClosing t, none)
  else if b = 62 then close t
  else (.tagName { t with name := t.name ++ [lower b] }, none)

def stepBogusComment (data : List UInt8) (b : UInt8) : Next :=
  if b = 62 then (.data, some (.comment data)) else (.bogusComment (data ++ [b]), none)

def stepTagOpen (b : UInt8) : Next :=
  if b = 33 then (.declarationOpen, none)
  else if b = 47 then (.endTagOpen, none)
  else if isLetter b then stepTagName ⟨false, [], []⟩ b
  else if b = 63 then stepBogusComment [] b
  else stepData b

def stepEndTagOpen (b : UInt8) : Next :=
  if isLetter b then stepTagName ⟨true, [], []⟩ b
  else if b = 62 then (.data, none)
  else stepBogusComment [] b

def stepAttrName (t : Tag) (name : List UInt8) (b : UInt8) : Next :=
  if isSpace b then (.afterAttrName t name, none)
  else if b = 47 then (.selfClosing (t.with name []), none)
  else if b = 62 then close (t.with name [])
  else if b = 61 then (.beforeAttrValue t name, none)
  else (.attrName t (name ++ [lower b]), none)

def stepBeforeAttrName (t : Tag) (b : UInt8) : Next :=
  if isSpace b then (.beforeAttrName t, none)
  else if b = 47 then (.selfClosing t, none)
  else if b = 62 then close t
  else if b = 61 then (.attrName t [b], none)
  else stepAttrName t [] b

def stepAfterAttrName (t : Tag) (name : List UInt8) (b : UInt8) : Next :=
  if isSpace b then (.afterAttrName t name, none)
  else if b = 47 then (.selfClosing (t.with name []), none)
  else if b = 61 then (.beforeAttrValue t name, none)
  else if b = 62 then close (t.with name [])
  else stepAttrName (t.with name []) [] b

def stepUnquotedValue (t : Tag) (name value : List UInt8) (b : UInt8) : Next :=
  if isSpace b then (.beforeAttrName (t.with name value), none)
  else if b = 62 then close (t.with name value)
  else (.unquotedValue t name (value ++ [b]), none)

def stepBeforeAttrValue (t : Tag) (name : List UInt8) (b : UInt8) : Next :=
  if isSpace b then (.beforeAttrValue t name, none)
  else if b = 34 ∨ b = 39 then (.quotedValue b t name [], none)
  else if b = 62 then close (t.with name [])
  else stepUnquotedValue t name [] b

def stepQuotedValue (quote : UInt8) (t : Tag) (name value : List UInt8) (b : UInt8) : Next :=
  if b = quote then (.afterQuotedValue (t.with name value), none)
  else (.quotedValue quote t name (value ++ [b]), none)

def stepSelfClosing (t : Tag) (b : UInt8) : Next := if b = 62 then close t else stepBeforeAttrName t b

def stepDeclarationOpen (b : UInt8) : Next :=
  if b = 45 then (.declarationDash, none) else stepBogusComment [] b

def stepDeclarationDash (b : UInt8) : Next :=
  if b = 45 then (.commentStart, none) else stepBogusComment [45] b

def stepComment (data : List UInt8) (b : UInt8) : Next :=
  if b = 45 then (.commentEndDash data, none) else (.comment (data ++ [b]), none)

def stepCommentStart (b : UInt8) : Next :=
  if b = 45 then (.commentStartDash, none)
  else if b = 62 then (.data, some (.comment []))
  else stepComment [] b

def stepCommentStartDash (b : UInt8) : Next :=
  if b = 45 then (.commentEnd [], none)
  else if b = 62 then (.data, some (.comment []))
  else stepComment [45] b

def stepCommentEndDash (data : List UInt8) (b : UInt8) : Next :=
  if b = 45 then (.commentEnd data, none) else stepComment (data ++ [45]) b

def stepCommentEnd (data : List UInt8) (b : UInt8) : Next :=
  if b = 62 then (.data, some (.comment data))
  else if b = 33 then (.commentEndBang data, none)
  else if b = 45 then (.commentEnd (data ++ [45]), none)
  else stepComment (data ++ [45, 45]) b

def stepCommentEndBang (data : List UInt8) (b : UInt8) : Next :=
  if b = 45 then (.commentEndDash (data ++ [45, 45, 33]), none)
  else if b = 62 then (.data, some (.comment data))
  else stepComment (data ++ [45, 45, 33]) b

def step : State → UInt8 → Next
  | .data => stepData
  | .tagOpen => stepTagOpen
  | .endTagOpen => stepEndTagOpen
  | .tagName t => stepTagName t
  -- a space is wanted after a quoted value, and without it the next attribute begins at once
  | .beforeAttrName t | .afterQuotedValue t => stepBeforeAttrName t
  | .attrName t name => stepAttrName t name
  | .afterAttrName t name => stepAfterAttrName t name
  | .beforeAttrValue t name => stepBeforeAttrValue t name
  | .quotedValue quote t name value => stepQuotedValue quote t name value
  | .unquotedValue t name value => stepUnquotedValue t name value
  | .selfClosing t => stepSelfClosing t
  | .declarationOpen => stepDeclarationOpen
  | .declarationDash => stepDeclarationDash
  | .bogusComment data => stepBogusComment data
  | .commentStart => stepCommentStart
  | .commentStartDash => stepCommentStartDash
  | .comment data => stepComment data
  | .commentEndDash data => stepCommentEndDash data
  | .commentEnd data => stepCommentEnd data
  | .commentEndBang data => stepCommentEndBang data

/-- What the end of the page completes: comments, but not tags. -/
def State.atEnd : State → List Markup
  | .declarationOpen | .declarationDash | .commentStart | .commentStartDash => [.comment []]
  | .bogusComment text | .comment text | .commentEndDash text | .commentEnd text | .commentEndBang text =>
    [.comment text]
  | _ => []

/-- The state after some bytes, and what they complete. -/
def scan : State → List UInt8 → State × List Markup
  | s, [] => (s, [])
  | s, b :: bs => ((scan (step s b).1 bs).1, (step s b).2.toList ++ (scan (step s b).1 bs).2)

/-- What is completed up to the end of the page. -/
def run (s : State) (bs : List UInt8) : List Markup := (scan s bs).2 ++ (scan s bs).1.atEnd

def markup (page : List UInt8) : List Markup := run .data page

variable {s s' : State} {a b : UInt8} {xs ys bs value name : List UInt8} {t t' : Tag} {ms : List Markup}
  {quote : UInt8}

theorem scan_append (s : State) (xs ys : List UInt8) :
    scan s (xs ++ ys) = ((scan (scan s xs).1 ys).1, (scan s xs).2 ++ (scan (scan s xs).1 ys).2) := by
  induction xs generalizing s with
  | nil => rfl
  | cons b xs ih =>
    rw [List.cons_append, scan, ih, scan, List.append_assoc]

theorem scan_trans {ms' : List Markup} {s'' : State} (h : scan s xs = (s', ms)) (h' : scan s' ys = (s'', ms')) :
    scan s (xs ++ ys) = (s'', ms ++ ms') := by
  rw [scan_append, h]
  dsimp only
  rw [h']

theorem run_append (h : scan s xs = (s', ms)) (ys : List UInt8) : run s (xs ++ ys) = ms ++ run s' ys := by
  rw [run, run, scan_append, h, List.append_assoc]

/-! ## Texts and values -/

/-- A byte that makes markup of a `<` before it. -/
def opensMarkup (b : UInt8) : Bool := isLetter b || b = 33 || b = 47 || b = 63

/-- No `<` has such a byte after it. -/
def isText : List UInt8 → Bool
  | [] => true
  | a :: bs => !(a = 60 && (bs.head?.map opensMarkup).getD false) && isText bs

theorem step_tagOpen_of_not_opensMarkup (h : opensMarkup b = false) : step .tagOpen b = step .data b := by
  simp only [opensMarkup, Bool.or_eq_false_iff, decide_eq_false_iff_not] at h
  obtain ⟨⟨⟨hletter, h33⟩, h47⟩, h63⟩ := h
  show stepTagOpen b = stepData b
  rw [stepTagOpen, if_neg h33, if_neg h47, hletter, if_neg Bool.false_ne_true, if_neg h63]

/-- **A text completes nothing.** -/
theorem scan_text (h : isText bs = true) : scan .data (bs ++ [60]) = (.tagOpen, []) := by
  induction bs with
  | nil => rfl
  | cons a bs ih =>
    rw [isText, Bool.and_eq_true] at h
    have hrest := ih h.2
    by_cases ha : a = 60
    · -- the byte after the `<` is read as if there were none
      obtain ⟨b, ys, hb, hopens⟩ : ∃ b ys, bs ++ [60] = b :: ys ∧ opensMarkup b = false := by
        cases bs with
        | nil => exact ⟨60, [], rfl, by decide⟩
        | cons b bs => exact ⟨b, bs ++ [60], rfl, by simpa [ha] using h.1⟩
      rw [hb] at hrest
      rw [List.cons_append, hb, ha, scan]
      show ((scan .tagOpen (b :: ys)).1, [] ++ (scan .tagOpen (b :: ys)).2) = _
      rw [scan, step_tagOpen_of_not_opensMarkup hopens, List.nil_append]
      exact hrest
    · have hstep : step .data a = (.data, none) := by
        show stepData a = _
        rw [stepData, if_neg ha]
      rw [List.cons_append, scan, hstep]
      exact hrest

/-- A text before markup. -/
theorem scan_text_append (h : isText bs = true) (xs : List UInt8) :
    scan .data (bs ++ 60 :: xs) = scan .data (60 :: xs) := by
  have hsplit : bs ++ 60 :: xs = (bs ++ [60]) ++ xs := by simp
  rw [hsplit, scan_append, scan_text h]
  rfl

/-- A text completes nothing before what begins with a `<`. -/
theorem scan_text_before (h : isText bs = true) (hhead : xs.head? = some 60) (hscan : scan .data xs = (s', ms)) :
    scan .data (bs ++ xs) = (s', ms) := by
  obtain ⟨ys, rfl⟩ := List.head?_eq_some_iff.mp hhead
  rw [scan_text_append h, hscan]

theorem isText_of_not_mem (h : 60 ∉ bs) : isText bs = true := by
  induction bs with
  | nil => rfl
  | cons b bs ih =>
    obtain ⟨hb, hbs⟩ := List.ne_and_not_mem_of_not_mem_cons h
    rw [isText, ih hbs, Bool.and_true, Bool.not_eq_true', Bool.and_eq_false_iff]
    exact .inl (decide_eq_false (Ne.symm hb))

theorem run_text_append (h : isText bs = true) (xs : List UInt8) :
    run .data (bs ++ 60 :: xs) = run .tagOpen xs := by
  rw [run, scan_text_append h]
  rfl

/-- What is not a text has a first `<` that opens markup. -/
theorem exists_opening (h : isText bs = false) :
    ∃ xs b ys, bs = xs ++ 60 :: b :: ys ∧ isText xs = true ∧ opensMarkup b = true := by
  induction bs with
  | nil => cases h
  | cons a bs ih =>
    by_cases hopen : (a = 60 && (bs.head?.map opensMarkup).getD false : Bool) = true
    · obtain ⟨ha, hb⟩ := Bool.and_eq_true_iff.mp hopen
      obtain rfl : a = 60 := of_decide_eq_true ha
      cases bs with
      | nil => cases hb
      | cons b bs => exact ⟨[], b, bs, rfl, rfl, hb⟩
    · rw [isText, Bool.eq_false_iff.mpr hopen, Bool.not_false, Bool.true_and] at h
      obtain ⟨xs, b, ys, rfl, hxs, hb⟩ := ih h
      refine ⟨a :: xs, b, ys, rfl, ?_, hb⟩
      rw [isText, hxs, Bool.and_true, Bool.not_eq_true']
      cases xs with
      | nil => exact Bool.and_false _
      | cons x xs => exact Bool.eq_false_iff.mpr hopen

/-- **A quoted value** ends at its quote. -/
theorem scan_quoted (h : quote ∉ bs) :
    scan (.quotedValue quote t name value) (bs ++ [quote]) = (.afterQuotedValue (t.with name (value ++ bs)), []) := by
  induction bs generalizing value with
  | nil =>
    show ((stepQuotedValue quote t name value quote).1, (stepQuotedValue quote t name value quote).2.toList ++ []) = _
    rw [stepQuotedValue, if_pos rfl, List.append_nil value]
    rfl
  | cons b bs ih =>
    obtain ⟨hb, hbs⟩ := List.ne_and_not_mem_of_not_mem_cons h
    have hstep : step (.quotedValue quote t name value) b = (.quotedValue quote t name (value ++ [b]), none) :=
      if_neg (Ne.symm hb)
    rw [List.cons_append, scan, hstep, ih hbs, List.append_assoc]
    rfl

/-! ## Within a tag -/

/-- The tag that is being read, with the attributes that it has already. -/
def State.tag? : State → Option Tag
  | .tagName t | .beforeAttrName t | .attrName t _ | .afterAttrName t _ | .beforeAttrValue t _
  | .quotedValue _ t _ _ | .unquotedValue t _ _ | .afterQuotedValue t | .selfClosing t => some t
  | _ => none

/-- The same tag, or one with more attributes. -/
def Tag.Extends (t' t : Tag) : Prop := t'.closing = t.closing ∧ t.attrs <+: t'.attrs

theorem Tag.Extends.refl (t : Tag) : t.Extends t := ⟨rfl, List.prefix_refl _⟩

theorem Tag.Extends.trans {t'' : Tag} (h : t'.Extends t) (h' : t''.Extends t') : t''.Extends t :=
  ⟨h'.1.trans h.1, h.2.trans h'.2⟩

theorem Tag.with_extends (t : Tag) (name value : List UInt8) : (t.with name value).Extends t :=
  ⟨rfl, List.prefix_append _ _⟩

/-- A step within a tag stays in it, or completes it. -/
def Keeps (t : Tag) (n : Next) : Prop :=
  ∃ t' : Tag, t'.Extends t ∧ (n.2 = none ∧ n.1.tag? = some t' ∨ n.2 = some (.tag t'))

theorem Keeps.of_extends {n : Next} (h : Keeps t' n) (ht : t'.Extends t) : Keeps t n := by
  obtain ⟨t'', ht'', hn⟩ := h
  exact ⟨t'', ht.trans ht'', hn⟩

theorem keeps_stay {u : State} (h : u.tag? = some t) : Keeps t (u, none) := ⟨t, .refl t, .inl ⟨rfl, h⟩⟩

theorem keeps_close (t : Tag) : Keeps t (close t) := ⟨t, .refl t, .inr rfl⟩

theorem keeps_tagName (t : Tag) (b : UInt8) : Keeps t (stepTagName t b) := by
  unfold stepTagName
  split
  · exact keeps_stay rfl
  · split
    · exact keeps_stay rfl
    · split
      · exact keeps_close t
      · exact ⟨{ t with name := t.name ++ [lower b] }, ⟨rfl, List.prefix_refl _⟩, .inl ⟨rfl, rfl⟩⟩

theorem keeps_attrName (t : Tag) (name : List UInt8) (b : UInt8) : Keeps t (stepAttrName t name b) := by
  unfold stepAttrName
  split
  · exact keeps_stay rfl
  · split
    · exact (keeps_stay rfl).of_extends (t.with_extends name [])
    · split
      · exact (keeps_close _).of_extends (t.with_extends name [])
      · split
        · exact keeps_stay rfl
        · exact keeps_stay rfl

theorem keeps_beforeAttrName (t : Tag) (b : UInt8) : Keeps t (stepBeforeAttrName t b) := by
  unfold stepBeforeAttrName
  split
  · exact keeps_stay rfl
  · split
    · exact keeps_stay rfl
    · split
      · exact keeps_close t
      · split
        · exact keeps_stay rfl
        · exact keeps_attrName t [] b

theorem keeps_afterAttrName (t : Tag) (name : List UInt8) (b : UInt8) : Keeps t (stepAfterAttrName t name b) := by
  unfold stepAfterAttrName
  split
  · exact keeps_stay rfl
  · split
    · exact (keeps_stay rfl).of_extends (t.with_extends name [])
    · split
      · exact keeps_stay rfl
      · split
        · exact (keeps_close _).of_extends (t.with_extends name [])
        · exact (keeps_attrName _ [] b).of_extends (t.with_extends name [])

theorem keeps_unquotedValue (t : Tag) (name value : List UInt8) (b : UInt8) :
    Keeps t (stepUnquotedValue t name value b) := by
  unfold stepUnquotedValue
  split
  · exact (keeps_stay rfl).of_extends (t.with_extends name value)
  · split
    · exact (keeps_close _).of_extends (t.with_extends name value)
    · exact keeps_stay rfl

theorem keeps_beforeAttrValue (t : Tag) (name : List UInt8) (b : UInt8) :
    Keeps t (stepBeforeAttrValue t name b) := by
  unfold stepBeforeAttrValue
  split
  · exact keeps_stay rfl
  · split
    · exact keeps_stay rfl
    · split
      · exact (keeps_close _).of_extends (t.with_extends name [])
      · exact keeps_unquotedValue t name [] b

theorem keeps_quotedValue (quote : UInt8) (t : Tag) (name value : List UInt8) (b : UInt8) :
    Keeps t (stepQuotedValue quote t name value b) := by
  unfold stepQuotedValue
  split
  · exact (keeps_stay rfl).of_extends (t.with_extends name value)
  · exact keeps_stay rfl

theorem keeps_selfClosing (t : Tag) (b : UInt8) : Keeps t (stepSelfClosing t b) := by
  unfold stepSelfClosing
  split
  · exact keeps_close t
  · exact keeps_beforeAttrName t b

theorem keeps_step (h : s.tag? = some t) (b : UInt8) : Keeps t (step s b) := by
  cases s with
  | tagName u => cases h; exact keeps_tagName t b
  | beforeAttrName u => cases h; exact keeps_beforeAttrName t b
  | attrName u name => cases h; exact keeps_attrName t name b
  | afterAttrName u name => cases h; exact keeps_afterAttrName t name b
  | beforeAttrValue u name => cases h; exact keeps_beforeAttrValue t name b
  | quotedValue quote u name value => cases h; exact keeps_quotedValue quote t name value b
  | unquotedValue u name value => cases h; exact keeps_unquotedValue t name value b
  | afterQuotedValue u => cases h; exact keeps_beforeAttrName t b
  | selfClosing u => cases h; exact keeps_selfClosing t b
  | data | tagOpen | endTagOpen | declarationOpen | declarationDash | bogusComment | commentStart
  | commentStartDash | comment | commentEndDash | commentEnd | commentEndBang => cases h

theorem run_cons (s : State) (b : UInt8) (bs : List UInt8) :
    run s (b :: bs) = (step s b).2.toList ++ run (step s b).1 bs := by
  rw [run, scan, run, List.append_assoc]

/-- **From within a tag** nothing is completed before the tag. -/
theorem run_tag (h : s.tag? = some t) (bs : List UInt8) :
    run s bs = [] ∨ ∃ t' ms, run s bs = .tag t' :: ms ∧ t'.Extends t := by
  induction bs generalizing s t with
  | nil =>
    left
    cases s <;> first | rfl | cases h
  | cons b bs ih =>
    obtain ⟨t', ht', hstep⟩ := keeps_step h b
    rw [run_cons]
    rcases hstep with ⟨hnone, htag⟩ | hsome
    · rw [hnone]
      rcases ih htag with hnil | ⟨t'', ms, hrun, ht''⟩
      · exact .inl hnil
      · exact .inr ⟨t'', ms, hrun, ht'.trans ht''⟩
    · rw [hsome]
      exact .inr ⟨t', _, rfl, ht'⟩

/-! ## Within a comment -/

def State.inComment : State → Bool
  | .declarationOpen | .declarationDash | .bogusComment _ | .commentStart | .commentStartDash | .comment _
  | .commentEndDash _ | .commentEnd _ | .commentEndBang _ => true
  | _ => false

/-- A step within a comment stays in it, or completes it. -/
def Comments (n : Next) : Prop := n.2 = none ∧ n.1.inComment = true ∨ ∃ text, n.2 = some (.comment text)

theorem comments_bogusComment (text : List UInt8) (b : UInt8) : Comments (stepBogusComment text b) := by
  unfold stepBogusComment
  split
  · exact .inr ⟨_, rfl⟩
  · exact .inl ⟨rfl, rfl⟩

theorem comments_comment (text : List UInt8) (b : UInt8) : Comments (stepComment text b) := by
  unfold stepComment
  split
  · exact .inl ⟨rfl, rfl⟩
  · exact .inl ⟨rfl, rfl⟩

theorem comments_stay {u : State} (h : u.inComment = true) : Comments (u, none) := .inl ⟨rfl, h⟩

theorem comments_close (text : List UInt8) : Comments (.data, some (.comment text)) := .inr ⟨text, rfl⟩

theorem comments_step (h : s.inComment = true) (b : UInt8) : Comments (step s b) := by
  cases s with
  | declarationOpen =>
    show Comments (stepDeclarationOpen b)
    unfold stepDeclarationOpen
    split
    · exact comments_stay rfl
    · exact comments_bogusComment [] b
  | declarationDash =>
    show Comments (stepDeclarationDash b)
    unfold stepDeclarationDash
    split
    · exact comments_stay rfl
    · exact comments_bogusComment [45] b
  | bogusComment text => exact comments_bogusComment text b
  | commentStart =>
    show Comments (stepCommentStart b)
    unfold stepCommentStart
    split
    · exact comments_stay rfl
    · split
      · exact comments_close []
      · exact comments_comment [] b
  | commentStartDash =>
    show Comments (stepCommentStartDash b)
    unfold stepCommentStartDash
    split
    · exact comments_stay rfl
    · split
      · exact comments_close []
      · exact comments_comment [45] b
  | comment text => exact comments_comment text b
  | commentEndDash text =>
    show Comments (stepCommentEndDash text b)
    unfold stepCommentEndDash
    split
    · exact comments_stay rfl
    · exact comments_comment _ b
  | commentEnd text =>
    show Comments (stepCommentEnd text b)
    unfold stepCommentEnd
    split
    · exact comments_close text
    · split
      · exact comments_stay rfl
      · split
        · exact comments_stay rfl
        · exact comments_comment _ b
  | commentEndBang text =>
    show Comments (stepCommentEndBang text b)
    unfold stepCommentEndBang
    split
    · exact comments_stay rfl
    · split
      · exact comments_close text
      · exact comments_comment _ b
  | data | tagOpen | endTagOpen | tagName | beforeAttrName | attrName | afterAttrName | beforeAttrValue
  | quotedValue | unquotedValue | afterQuotedValue | selfClosing => cases h

/-- **From within a comment** the comment is completed next. -/
theorem run_comment (h : s.inComment = true) (bs : List UInt8) : ∃ text ms, run s bs = .comment text :: ms := by
  induction bs generalizing s with
  | nil => cases s <;> first | exact ⟨_, _, rfl⟩ | cases h
  | cons b bs ih =>
    rw [run_cons]
    rcases comments_step h b with ⟨hnone, hin⟩ | ⟨text, hsome⟩
    · rw [hnone]
      exact ih hin
    · rw [hsome]
      exact ⟨text, _, rfl⟩

/-- **An opened text** completes a start tag or a comment next, if anything, unless a `/`
makes it an end tag. -/
theorem run_opening (hopen : opensMarkup b = true) (hslash : b ≠ 47) (bs : List UInt8) :
    run .tagOpen (b :: bs) = [] ∨ (∃ t ms, run .tagOpen (b :: bs) = .tag t :: ms ∧ t.closing = false) ∨
      ∃ text ms, run .tagOpen (b :: bs) = .comment text :: ms := by
  rw [run_cons]
  show (stepTagOpen b).2.toList ++ run (stepTagOpen b).1 bs = [] ∨
    (∃ t ms, (stepTagOpen b).2.toList ++ run (stepTagOpen b).1 bs = .tag t :: ms ∧ t.closing = false) ∨
    ∃ text ms, (stepTagOpen b).2.toList ++ run (stepTagOpen b).1 bs = .comment text :: ms
  unfold stepTagOpen
  by_cases h33 : b = 33
  · rw [if_pos h33]
    exact .inr (.inr (run_comment rfl bs))
  · rw [if_neg h33, if_neg hslash]
    by_cases hletter : isLetter b = true
    · rw [if_pos hletter]
      obtain ⟨t, ht, ⟨hnone, htag⟩ | hsome⟩ := keeps_tagName ⟨false, [], []⟩ b
      · rw [hnone]
        rcases run_tag htag bs with hnil | ⟨t', ms, hrun, ht'⟩
        · exact .inl hnil
        · exact .inr (.inl ⟨t', ms, hrun, (ht.trans ht').1⟩)
      · rw [hsome]
        exact .inr (.inl ⟨t, _, rfl, ht.1⟩)
    · have h63 : b = 63 := by
        simpa [opensMarkup, hletter, h33, hslash] using hopen
      rw [if_neg hletter, if_pos h63]
      rcases comments_bogusComment [] b with ⟨hnone, hin⟩ | ⟨text, hsome⟩
      · rw [hnone]
        exact .inr (.inr (run_comment hin bs))
      · rw [hsome]
        exact .inr (.inr ⟨text, _, rfl⟩)

/-- A `/` before a `<` makes it a comment. -/
theorem run_slash_open (bs : List UInt8) : ∃ text ms, run .tagOpen (47 :: 60 :: bs) = .comment text :: ms :=
  run_comment (s := .bogusComment [60]) rfl bs

end Lib.Html
