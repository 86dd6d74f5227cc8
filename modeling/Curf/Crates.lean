import Curf.Basic
import Curf.Lib.Lowercase
import Curf.Lib.Utf8
import Mathlib.Algebra.Group.Int.Defs
import Mathlib.Algebra.Group.Nat.Defs

/-!
# The crates

What `hyper`, `percent-encoding`, `mime_guess` and `httpdate` compute is a
parameter of the model. `Crates` has these functions with what is documented of
them: which bytes a header value may have in any case, that media types and dates
have only such, and when the formatting of a date panics.
-/

namespace Curf

open Lib

/-- The bytes of a text. -/
def Bytes.ofString (s : String) : Bytes := s.toUTF8.data.toList

/-- A number in decimal digits. -/
def decimal (n : Nat) : Bytes := utf8 (Nat.toDigits 10 n)

/-- Visible ASCII and spaces only. -/
def Bytes.plain (bs : Bytes) : Bool := bs.all fun b => 32 ≤ b.toNat && b.toNat < 127

/-- What `proxy_http` asks a parsed `hyper::Uri` for. The host of an IPv6 address has
its brackets. -/
structure Uri where
  host : Option Text
  port : Option UInt16
  deriving DecidableEq, Repr

/-- A point in time, in nanoseconds since the Unix epoch. -/
abbrev SystemTime := Int

structure Crates where
  caseTable : CaseTable
  percentDecode : Bytes → Bytes
  parseUri : Text → Option Uri
  /-- The lower-cased header name, if the text is one. -/
  parseHeaderName : String → Option String
  /-- The bytes that a `HeaderValue` accepts. -/
  valueByte : UInt8 → Bool
  /-- The names a `HeaderMap` holds at most. -/
  maxHeaders : Nat
  /-- The guessed media type of a file, `application/octet-stream` if there is no guess. -/
  mimeType : Bytes → Bytes
  /-- The date of a second since the epoch, before the year 10000. -/
  httpDate : Nat → Bytes
  parseHttpDate : Text → Option SystemTime
  valueByte_visible : ∀ b : UInt8, 32 ≤ b.toNat → b.toNat < 127 → valueByte b = true
  mimeType_plain : ∀ path, (mimeType path).plain = true
  httpDate_plain : ∀ secs, (httpDate secs).plain = true

/-- The ways in which a request can end the process. -/
inductive Panic where
  /-- A response builder is unwrapped that has refused a part. -/
  | response
  | httpDate
  /-- A `HeaderMap` is full. -/
  | headerMap
  | indexOutOfBounds
  | divisionByZero
  deriving DecidableEq, Repr

/-- 10000-01-01, in seconds since the epoch. -/
def year10000 : Nat := 253402300800

namespace Crates

variable (C : Crates)

/-- Whether the bytes are a `HeaderValue`. -/
def validValue (value : Bytes) : Bool := value.all C.valueByte

/-- Whether the time is before the epoch or not before the year 10000. -/
def Undated (t : SystemTime) : Prop := t < 0 ∨ year10000 * 10 ^ 9 ≤ t

instance (t : SystemTime) : Decidable (Undated t) := inferInstanceAs (Decidable (_ ∨ _))

def fmtHttpDate (t : SystemTime) : Except Panic Bytes :=
  if Undated t then .error .httpDate else .ok (C.httpDate (t.toNat / 10 ^ 9))

end Crates

variable {C : Crates} {bs cs : Bytes}

@[simp] theorem plain_append : (bs ++ cs).plain = (bs.plain && cs.plain) := List.all_append

theorem plain_decimal (n : Nat) : (decimal n).plain = true := by
  have hdigit : ∀ c ∈ Nat.toDigits 10 n, 48 ≤ c.toNat ∧ c.toNat < 58 := by
    intro c hc
    have h := Nat.isDigit_of_mem_toDigits (by decide) (by decide) hc
    simp only [Char.isDigit, Bool.and_eq_true, decide_eq_true_eq, ge_iff_le, UInt32.le_iff_toNat_le] at h
    show 48 ≤ c.val.toNat ∧ c.val.toNat < 58
    have h1 : '0'.val.toNat = 48 := rfl
    have h2 : '9'.val.toNat = 57 := rfl
    omega
  unfold decimal Bytes.plain
  rw [utf8_eq_map fun c hc => Nat.lt_trans (hdigit c hc).2 (by decide), List.all_map, List.all_eq_true]
  intro c hc
  obtain ⟨h1, h2⟩ := hdigit c hc
  have hcode : c.toUInt8.toNat = c.toNat := toNat_toUInt8 (by omega)
  simp only [Function.comp_apply, hcode, Bool.and_eq_true, decide_eq_true_eq]
  omega

/-- What is plain is a header value. -/
theorem validValue_of_plain (h : bs.plain = true) : C.validValue bs = true := by
  unfold Crates.validValue
  rw [List.all_eq_true]
  intro b hb
  have hplain := List.all_eq_true.mp h b hb
  simp only [Bool.and_eq_true, decide_eq_true_eq] at hplain
  exact C.valueByte_visible b hplain.1 hplain.2

/-- A formatted date is a header value. -/
theorem fmtHttpDate_valid {t : SystemTime} (h : C.fmtHttpDate t = .ok bs) : C.validValue bs = true := by
  unfold Crates.fmtHttpDate at h
  split at h
  · cases h
  · cases h
    exact validValue_of_plain (C.httpDate_plain _)

end Curf
