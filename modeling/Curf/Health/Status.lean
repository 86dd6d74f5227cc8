import Curf.Health.Target

/-!
# Reading the status

`do_get` reads once from the connection, into a buffer of 256 bytes, and takes the second
word of what it has got for the status code. `status_iff` says for which responses and
which ways in which they arrive that is the code of the response.
-/

namespace Curf

open Lib

/-! ## Words -/

/-- `str::split_whitespace`. -/
def splitWhitespace (s : Text) : List Text := (s.splitOnP isWhiteSpace).filter (· ≠ [])

/-- `str::from_utf8`, with the empty text for bytes that are none. -/
def textOf (bs : Bytes) : Text := ((String.fromUTF8? bs.toByteArray).map String.toList).getD []

variable {s t w : Text} {bs : Bytes}

theorem splitWhitespace_word (hne : w ≠ []) (hw : ∀ c ∈ w, isWhiteSpace c = false) : splitWhitespace w = [w] := by
  rw [splitWhitespace, List.splitOnP_eq_singleton hw]
  simp [hne]

/-- A word and a space in front. -/
theorem splitWhitespace_append (hne : w ≠ []) (hw : ∀ c ∈ w, isWhiteSpace c = false) {c : Char}
    (hc : isWhiteSpace c = true) (t : Text) : splitWhitespace (w ++ c :: t) = w :: splitWhitespace t := by
  rw [splitWhitespace, List.splitOnP_append_cons _ _ hc, List.splitOnP_eq_singleton hw, List.filter_append]
  simp [hne, splitWhitespace]

theorem textOf_utf8 (s : Text) : textOf (utf8 s) = s := by
  have hvalid : (utf8 s).toByteArray.IsValidUTF8 := ⟨s, rfl⟩
  have hstring : String.fromUTF8 (utf8 s).toByteArray hvalid = String.ofList s :=
    String.toByteArray_inj.mp String.toByteArray_ofList.symm
  rw [textOf, String.fromUTF8?, dif_pos hvalid, hstring, Option.map_some, Option.getD_some, String.toList_ofList]

theorem textOf_of_not_isUtf8 (h : bs.isUtf8 = false) : textOf bs = [] := by
  have hinvalid : ¬ bs.toByteArray.IsValidUTF8 := ByteArray.validateUTF8_eq_false_iff.mp h
  rw [textOf, String.fromUTF8?, dif_neg hinvalid]
  rfl

/-! ## The check -/

/-- The status in the bytes read, zero if there is none. -/
def statusOf (response : Bytes) : UInt16 := ((splitWhitespace (textOf response))[1]?.bind parseU16).getD 0

/-- What a backend answers: the pieces in which its response is read, if it can be connected
to and the request is written in time. -/
abbrev Answers := Target → Option (List Bytes)

/-- The first read gets as much of the first piece as there is room for. -/
def doGet (answers : Answers) (url : Text) : Option UInt16 :=
  (doGetTarget url).bind fun target => (answers target).map fun reads => statusOf ((reads.headD []).take 256)

def checkBackend (answers : Answers) (url : Text) : Bool :=
  match doGet answers url with
  | some status => 200 ≤ status && status < 300
  | none => false

/-! ## Status lines -/

def digit (d : Fin 10) : Char := Nat.digitChar d

/-- What a number in digits stands for. -/
def numberOf (ds : List (Fin 10)) : Nat := ds.foldl (fun n d => 10 * n + d.val) 0

/-- The status line of an HTTP/1 response, up to what ends the code. -/
structure StatusLine where
  minor : Fin 10
  hundreds : Fin 10
  tens : Fin 10
  ones : Fin 10
  /-- A space before the reason, or the end of the line. -/
  after : Char
  after_eq : after = ' ' ∨ after = '\r'

namespace StatusLine

variable (line : StatusLine)

def digits : List (Fin 10) := [line.hundreds, line.tens, line.ones]

def code : Nat := numberOf line.digits

def version : Text := "HTTP/1.".toList ++ [digit line.minor]

def text : Text := line.version ++ ' ' :: line.digits.map digit ++ [line.after]

end StatusLine

variable {ds : List (Fin 10)} {line : StatusLine} {k : Nat}

theorem digit_spec (d : Fin 10) :
    (digit d).isDigit = true ∧ digit d ≠ '+' ∧ (digit d).toNat - '0'.toNat = d.val ∧
      isWhiteSpace (digit d) = false ∧ (digit d).toNat < 128 := by
  have hall : ∀ d : Fin 10, (digit d).isDigit = true ∧ digit d ≠ '+' ∧ (digit d).toNat - '0'.toNat = d.val ∧
      isWhiteSpace (digit d) = false ∧ (digit d).toNat < 128 := by decide
  exact hall d

theorem parseU16_digits (hne : ds ≠ []) (hlt : numberOf ds < 2 ^ 16) :
    parseU16 (ds.map digit) = some (.ofNat (numberOf ds)) := by
  have hvalue : ∀ n, (ds.map digit).foldl (fun n c => 10 * n + (c.toNat - '0'.toNat)) n =
      ds.foldl (fun n d => 10 * n + d.val) n := by
    intro n
    rw [List.foldl_map]
    simp only [(digit_spec _).2.2.1]
  have hhead : (ds.map digit).head? ≠ some '+' := by
    cases ds with
    | nil => exact nofun
    | cons d ds => exact fun h => (digit_spec d).2.1 (Option.some.inj h)
  have hall : (ds.map digit).all Char.isDigit = true := by
    simp [List.all_map, (digit_spec _).1]
  unfold parseU16
  dsimp only
  rw [if_neg hhead, hvalue]
  exact if_pos ⟨by simpa using hne, hall, hlt⟩

namespace StatusLine

/-- The status line up to its code. -/
def upToCode (line : StatusLine) : Text := line.version ++ ' ' :: line.digits.map digit

theorem version_word (line : StatusLine) : ∀ c ∈ line.version, isWhiteSpace c = false := by
  have hname : "HTTP/1.".toList.all (fun c => !isWhiteSpace c) = true := by decide
  intro c hc
  rcases List.mem_append.mp hc with hc | hc
  · simpa using List.all_eq_true.mp hname c hc
  · obtain rfl := List.mem_singleton.mp hc
    exact (digit_spec line.minor).2.2.2.1

theorem length_version (line : StatusLine) : line.version.length = 8 := by
  have hname : "HTTP/1.".toList.length = 7 := by decide
  show ("HTTP/1.".toList ++ [digit line.minor]).length = 8
  rw [List.length_append, hname, List.length_singleton]

theorem version_ne_nil (line : StatusLine) : line.version ≠ [] :=
  List.ne_nil_of_length_pos (by rw [length_version]; decide)

theorem digits_word (ds : List (Fin 10)) : ∀ c ∈ ds.map digit, isWhiteSpace c = false := by
  intro c hc
  obtain ⟨d, -, rfl⟩ := List.mem_map.mp hc
  exact (digit_spec d).2.2.2.1

theorem upToCode_ascii (line : StatusLine) : ∀ c ∈ line.upToCode, c.toNat < 128 := by
  have hname : "HTTP/1.".toList.all (fun c => decide (c.toNat < 128)) = true := by decide
  intro c hc
  rcases List.mem_append.mp hc with hc | hc
  · rcases List.mem_append.mp hc with hc | hc
    · exact of_decide_eq_true (List.all_eq_true.mp hname c hc)
    · obtain rfl := List.mem_singleton.mp hc
      exact (digit_spec line.minor).2.2.2.2
  · rcases List.mem_cons.mp hc with rfl | hc
    · decide
    · obtain ⟨d, -, rfl⟩ := List.mem_map.mp hc
      exact (digit_spec d).2.2.2.2

theorem length_upToCode (line : StatusLine) : line.upToCode.length = 12 := by
  simp [upToCode, length_version, digits]

theorem length_utf8_upToCode (line : StatusLine) : (utf8 line.upToCode).length = 12 := by
  rw [utf8_eq_map line.upToCode_ascii, List.length_map, length_upToCode]

theorem code_lt (line : StatusLine) : line.code < 1000 := by
  have h1 := line.hundreds.isLt
  have h2 := line.tens.isLt
  have h3 := line.ones.isLt
  simp only [code, numberOf, digits, List.foldl_cons, List.foldl_nil]
  omega

/-- The second word after the version is the first of what follows it. -/
theorem statusOf_version (line : StatusLine) (t : Text) :
    statusOf (utf8 (line.version ++ ' ' :: t)) = ((splitWhitespace t)[0]?.bind parseU16).getD 0 := by
  rw [statusOf, textOf_utf8, splitWhitespace_append line.version_ne_nil line.version_word rfl]
  rfl

/-- What is read before the code is complete stands for less than a hundred. -/
theorem statusOf_short (line : StatusLine) (hk : k < 12) : statusOf (utf8 (line.upToCode.take k)) < 100 := by
  by_cases hversion : k ≤ 8
  · have htake : line.upToCode.take k = line.version.take k := by
      rw [upToCode, List.take_append_of_le_length (by rw [length_version]; exact hversion)]
    have hnone : (splitWhitespace (line.version.take k))[1]? = none := by
      by_cases hnil : line.version.take k = []
      · rw [hnil]
        rfl
      · rw [splitWhitespace_word hnil fun c hc => line.version_word c (List.take_subset _ _ hc)]
        rfl
    rw [htake, statusOf, textOf_utf8, hnone]
    decide
  · obtain ⟨j, rfl⟩ : ∃ j, k = 9 + j := ⟨k - 9, by omega⟩
    have htake : line.upToCode.take (9 + j) = line.version ++ ' ' :: (line.digits.take j).map digit := by
      rw [upToCode, List.take_append, length_version, List.take_of_length_le (by rw [length_version]; omega),
        show 9 + j - 8 = j + 1 by omega, List.take_succ_cons, List.map_take]
    rw [htake, statusOf_version]
    by_cases hnil : line.digits.take j = []
    · rw [hnil]
      decide
    · have hsmall : numberOf (line.digits.take j) < 100 := by
        have h1 := line.hundreds.isLt
        have h2 := line.tens.isLt
        rcases (by omega : j = 0 ∨ j = 1 ∨ j = 2) with rfl | rfl | rfl
        · exact absurd rfl hnil
        · simp only [numberOf, digits, List.take_succ_cons, List.take_zero, List.foldl_cons, List.foldl_nil]
          omega
        · simp only [numberOf, digits, List.take_succ_cons, List.take_zero, List.foldl_cons, List.foldl_nil]
          omega
      rw [splitWhitespace_word (by simpa using hnil) (digits_word _), List.getElem?_cons_zero, Option.bind_some,
        parseU16_digits hnil (by omega), Option.getD_some, UInt16.lt_iff_toNat_lt, UInt16.toNat_ofNat']
      exact Nat.lt_of_le_of_lt (Nat.mod_le _ _) hsmall

/-- With the code complete, and white space after it if anything, the code is read. -/
theorem statusOf_complete (line : StatusLine) (htext : t = [] ∨ ∃ c v, t = c :: v ∧ isWhiteSpace c = true) :
    statusOf (utf8 (line.upToCode ++ t)) = .ofNat line.code := by
  have hne : line.digits.map digit ≠ [] := by simp [digits]
  have hfirst : (splitWhitespace (line.digits.map digit ++ t))[0]? = some (line.digits.map digit) := by
    rcases htext with rfl | ⟨c, v, rfl, hc⟩
    · rw [List.append_nil, splitWhitespace_word hne (digits_word _)]
      rfl
    · rw [splitWhitespace_append hne (digits_word _) hc]
      rfl
  have hsplit : line.upToCode ++ t = line.version ++ ' ' :: (line.digits.map digit ++ t) := by
    rw [upToCode, List.append_assoc, List.cons_append]
  have hlt := line.code_lt
  rw [hsplit, statusOf_version, hfirst, Option.bind_some, parseU16_digits (by simp [digits])
    (show line.code < 2 ^ 16 by omega), Option.getD_some]
  rfl

theorem after_byte (line : StatusLine) : ∃ b : UInt8, utf8 [line.after] = [b] ∧ b.toNat < 128 ∧
    ∀ c : Char, c.toNat = b.toNat → isWhiteSpace c = true := by
  rcases line.after_eq with h | h
  · exact ⟨32, by rw [h]; rfl, by decide, fun c hc => by simp [isWhiteSpace, hc]⟩
  · exact ⟨13, by rw [h]; rfl, by decide, fun c hc => by simp [isWhiteSpace, hc]⟩

/-- What is read of a response, before its code is complete and after. -/
theorem statusOf_prefix {p rest : Bytes} (hp : p <+: utf8 line.text ++ rest) :
    (p.length < 12 → statusOf p < 100) ∧ (12 ≤ p.length → p.isUtf8 = true → statusOf p = .ofNat line.code) := by
  have htext : utf8 line.text ++ rest = utf8 line.upToCode ++ (utf8 [line.after] ++ rest) := by
    show utf8 (line.upToCode ++ [line.after]) ++ rest = _
    rw [StaticFileServer.utf8_append, List.append_assoc]
  rw [htext] at hp
  have hcode : utf8 line.upToCode <+: utf8 line.upToCode ++ (utf8 [line.after] ++ rest) := List.prefix_append _ _
  constructor
  · intro hlen
    have hshort : p <+: utf8 line.upToCode :=
      List.prefix_of_prefix_length_le hp hcode (by rw [length_utf8_upToCode]; omega)
    have hcut : p = utf8 (line.upToCode.take p.length) := by
      rw [utf8_eq_map fun c hc => line.upToCode_ascii c (List.take_subset _ _ hc), List.map_take,
        ← utf8_eq_map line.upToCode_ascii]
      exact List.prefix_iff_eq_take.mp hshort
    rw [hcut]
    exact line.statusOf_short hlen
  · intro hlen hutf
    obtain ⟨q, rfl⟩ := List.prefix_of_prefix_length_le hcode hp (by rw [length_utf8_upToCode]; exact hlen)
    obtain ⟨s, hs⟩ := isUtf8_iff.mp hutf
    obtain ⟨v, rfl, hv⟩ := exists_of_ascii_append line.upToCode_ascii hs
    rw [hs]
    refine line.statusOf_complete ?_
    cases v with
    | nil => exact .inl rfl
    | cons c v =>
      -- the first character after the code is the space or the end of the line
      have hq : q <+: utf8 [line.after] ++ rest := (List.prefix_append_right_inj _).mp hp
      obtain ⟨b, hb, hbyte, hwhite⟩ := line.after_byte
      rw [hb] at hq
      cases q with
      | nil => exact absurd (utf8_eq_nil hv) (List.cons_ne_nil c v)
      | cons b' q =>
        obtain ⟨rfl, -⟩ := List.cons_prefix_cons.mp hq
        obtain ⟨u, d, w, hsplit, hu, -, hd⟩ := exists_of_utf8_eq_append_cons (x := []) hv hbyte
        obtain rfl := utf8_eq_nil hu
        obtain ⟨rfl, rfl⟩ := List.cons.inj hsplit
        exact .inr ⟨c, v, rfl, hwhite c hd⟩

end StatusLine

/-- The first piece has the code, and what is read of it is a text. -/
def FirstPieceReadable (reads : List Bytes) : Prop :=
  12 ≤ (reads.headD []).length ∧ Bytes.isUtf8 ((reads.headD []).take 256) = true

variable {answers : Answers} {url : Text} {target : Target} {reads : List Bytes} {rest : Bytes}

/-- When a check is passed. -/
theorem checkBackend_iff (htarget : doGetTarget url = some target) (hanswer : answers target = some reads)
    (hstream : reads.flatten = utf8 line.text ++ rest) :
    checkBackend answers url = true ↔ FirstPieceReadable reads ∧ 200 ≤ line.code ∧ line.code ≤ 299 := by
  have hread : (reads.headD []).take 256 <+: utf8 line.text ++ rest := by
    rw [← hstream]
    cases reads with
    | nil => exact List.nil_prefix
    | cons r rs => exact (List.take_prefix 256 r).trans (List.prefix_append r rs.flatten)
  have hlen : 12 ≤ ((reads.headD []).take 256).length ↔ 12 ≤ (reads.headD []).length := by
    rw [List.length_take]
    omega
  obtain ⟨hshort, hcomplete⟩ := StatusLine.statusOf_prefix hread
  have hcheck : checkBackend answers url =
      (200 ≤ statusOf ((reads.headD []).take 256) && statusOf ((reads.headD []).take 256) < 300 : Bool) := by
    rw [checkBackend, doGet, htarget, Option.bind_some, hanswer, Option.map_some]
  rw [hcheck, FirstPieceReadable, ← hlen]
  by_cases h12 : 12 ≤ ((reads.headD []).take 256).length
  · cases hutf : Bytes.isUtf8 ((reads.headD []).take 256) with
    | true =>
      have hlt := line.code_lt
      rw [hcomplete h12 hutf]
      simp only [Bool.and_eq_true, decide_eq_true_eq, UInt16.le_iff_toNat_le, UInt16.lt_iff_toNat_lt,
        UInt16.toNat_ofNat', UInt16.reduceToNat, h12, true_and]
      omega
    | false =>
      rw [statusOf, textOf_of_not_isUtf8 hutf]
      simp [splitWhitespace]
  · have hsmall := hshort (by omega)
    simp only [Bool.and_eq_true, decide_eq_true_eq, UInt16.le_iff_toNat_le, UInt16.lt_iff_toNat_lt,
      UInt16.reduceToNat] at hsmall ⊢
    omega

/-- **Which responses are read right.** A check says whether the code of the response is from
200 to 299 exactly when it is not, or the first piece has the code and the part of it that is
read is a text. -/
theorem status_iff (answers : Answers) (url : Text) (target : Target) (line : StatusLine) (rest : Bytes)
    (reads : List Bytes) (htarget : doGetTarget url = some target) (hanswer : answers target = some reads)
    (hstream : reads.flatten = utf8 line.text ++ rest) :
    ((checkBackend answers url = true ↔ 200 ≤ line.code ∧ line.code ≤ 299) ↔
      (200 ≤ line.code ∧ line.code ≤ 299 → FirstPieceReadable reads)) := by
  rw [checkBackend_iff htarget hanswer hstream]
  constructor
  · exact fun h hcode => (h.mpr hcode).1
  · exact fun h => ⟨fun hcheck => hcheck.2, fun hcode => ⟨h hcode, hcode⟩⟩

/-- `HTTP/1.1 200`, and a space. -/
def okLine : StatusLine := ⟨1, 2, 0, 0, ' ', .inl rfl⟩

/-- A backend at `a`, with nothing else to connect to. -/
def answersAt (reads : List Bytes) : Answers := fun target =>
  if target.addr = "a:80".toList then some reads else none

/-- A response in three pieces: the first ends with the code, and the last has a byte that
is not of UTF-8. -/
def okInPieces : List Bytes :=
  [[72, 84, 84, 80, 47, 49, 46, 49, 32, 50, 48, 48], [32, 79], [75, 13, 10, 86, 58, 233, 13, 10, 13, 10]]

theorem status_iff_pieces : (checkBackend (answersAt okInPieces) "http://a".toList = true ↔
    200 ≤ okLine.code ∧ okLine.code ≤ 299) :=
  (status_iff _ _ ⟨"a:80".toList, ['/']⟩ okLine [79, 75, 13, 10, 86, 58, 233, 13, 10, 13, 10] okInPieces (by decide)
    rfl (by decide)).mpr fun _ => ⟨by decide, by decide⟩

/-- A response of 200 is failed when it comes in two pieces, the first of them without the
code, and when a byte of a header is not of UTF-8. -/
theorem split_or_latin_fails :
    ([72, 84, 84, 80, 47, 49, 46, 49, 32, 50] ++ [48, 48, 32, 79, 75, 13, 10, 13, 10] : Bytes) =
        utf8 okLine.text ++ [79, 75, 13, 10, 13, 10] ∧ 200 ≤ okLine.code ∧ okLine.code ≤ 299 ∧
      checkBackend (answersAt [[72, 84, 84, 80, 47, 49, 46, 49, 32, 50], [48, 48, 32, 79, 75, 13, 10, 13, 10]])
        "http://a".toList = false ∧
      checkBackend (answersAt [utf8 okLine.text ++ [79, 75, 13, 10, 86, 58, 233, 13, 10, 13, 10]])
        "http://a".toList = false := by
  refine ⟨by decide, by decide, by decide, by decide, by decide⟩

end Curf
