import Mathlib
import Curf.Lib.AsciiCase
import Curf.Lib.First

/-!
# Authorities

The authority of a URL without user information: a host, which is a registered
name, an IPv4 address or a bracketed IPv6 address, and an optional port.
`takeWhile_text` says what stands before the first `:`. Hosts are compared up to the
case of ASCII letters.
-/

namespace Lib

/-- A printable ASCII character other than the space. -/
def Visible (c : Char) : Prop := 32 < c.toNat ∧ c.toNat < 127

instance (c : Char) : Decidable (Visible c) := inferInstanceAs (Decidable (_ ∧ _))

/-- The characters of registered names and IPv4 addresses. -/
def isNameChar (c : Char) : Bool := c.isAlphanum || "-._~%!$&'()*+,;=".toList.contains c

/-- The characters of IPv6 addresses. -/
def isAddressChar (c : Char) : Bool := c.isHexDigit || c = ':' || c = '.'

inductive Host where
  | name (text : Text) (chars : text.all isNameChar = true)
  | ipv6 (addr : Text) (chars : addr.all isAddressChar = true) (colon : ':' ∈ addr)

def Host.text : Host → Text
  | .name text _ => text
  | .ipv6 addr _ _ => '[' :: addr ++ [']']

structure Authority where
  host : Host
  port : Option Text
  digits : (port.getD []).all Char.isDigit = true

namespace Authority

def portText (a : Authority) : Text :=
  match a.port with
  | none => []
  | some p => ':' :: p

def text (a : Authority) : Text := a.host.text ++ a.portText

end Authority

variable {c : Char} {host : Host} {a : Authority}

theorem visible_of_isDigit (h : c.isDigit = true) : Visible c ∧ c ≠ ':' := by
  obtain ⟨h1, h2⟩ := Char.isDigit_iff_toNat.mp h
  have h3 : '0'.toNat = 48 := rfl
  have h4 : '9'.toNat = 57 := rfl
  refine ⟨⟨by omega, by omega⟩, ?_⟩
  rintro rfl
  cases h

theorem visible_of_isAlpha (h : c.isAlpha = true) : Visible c ∧ c ≠ ':' := by
  have hrange := isAlpha_iff_toNat.mp h
  refine ⟨⟨by omega, by omega⟩, ?_⟩
  rintro rfl
  cases h

theorem visible_of_isNameChar (h : isNameChar c = true) : Visible c ∧ c ≠ ':' := by
  have hmarks : ("-._~%!$&'()*+,;=".toList.all fun c => Visible c ∧ c ≠ ':') = true := by decide
  rcases Bool.or_eq_true_iff.mp h with h | h
  · rcases Bool.or_eq_true_iff.mp h with h | h
    · exact visible_of_isAlpha h
    · exact visible_of_isDigit h
  · exact of_decide_eq_true (List.all_eq_true.mp hmarks c (List.contains_iff_mem.mp h))

theorem visible_of_isAddressChar (h : isAddressChar c = true) : Visible c := by
  rcases Bool.or_eq_true_iff.mp h with h | h
  · rcases Bool.or_eq_true_iff.mp h with h | h
    · have hrange : (48 ≤ c.toNat ∧ c.toNat ≤ 57 ∨ 97 ≤ c.toNat ∧ c.toNat ≤ 102) ∨
          65 ≤ c.toNat ∧ c.toNat ≤ 70 := by
        simpa [Char.isHexDigit, Char.isDigit, UInt32.le_iff_toNat_le] using h
      exact ⟨by omega, by omega⟩
    · obtain rfl := of_decide_eq_true h
      decide
  · obtain rfl := of_decide_eq_true h
    decide

/-! ## The text of an authority -/

theorem Host.visible (hc : c ∈ host.text) : Visible c := by
  cases host with
  | name text chars => exact (visible_of_isNameChar (List.all_eq_true.mp chars c hc)).1
  | ipv6 addr chars colon =>
    rcases List.mem_cons.mp hc with rfl | hc
    · decide
    · rcases List.mem_append.mp hc with hc | hc
      · exact visible_of_isAddressChar (List.all_eq_true.mp chars c hc)
      · obtain rfl := List.mem_singleton.mp hc
        decide

theorem Authority.visible (hc : c ∈ a.text) : Visible c := by
  rcases List.mem_append.mp hc with hc | hc
  · exact Host.visible hc
  · obtain ⟨host, port, digits⟩ := a
    cases port with
    | none => cases hc
    | some p =>
      rcases List.mem_cons.mp hc with rfl | hc
      · decide
      · exact (visible_of_isDigit (List.all_eq_true.mp digits c hc)).1

/-- What stands before the first `:`. -/
def Host.beforeColon : Host → Text
  | .name text _ => text
  | .ipv6 addr _ _ => '[' :: addr.takeWhile (· ≠ ':')

/-- **Cutting an authority** at its first `:` gives the host, unless that is an IPv6
address. -/
theorem Authority.takeWhile_text (a : Authority) : a.text.takeWhile (· ≠ ':') = a.host.beforeColon := by
  obtain ⟨host, port, digits⟩ := a
  cases host with
  | name text chars =>
    have hall : ∀ c ∈ text, decide (c ≠ ':') = true := fun c hc =>
      decide_eq_true (visible_of_isNameChar (List.all_eq_true.mp chars c hc)).2
    show (text ++ portText ⟨.name text chars, port, digits⟩).takeWhile (· ≠ ':') = text
    rw [List.takeWhile_append_of_pos hall]
    cases port with
    | none => exact List.append_nil text
    | some p => exact List.append_nil text
  | ipv6 addr chars colon =>
    show ('[' :: addr ++ [']'] ++ portText ⟨.ipv6 addr chars colon, port, digits⟩).takeWhile (· ≠ ':') =
      '[' :: addr.takeWhile (· ≠ ':')
    obtain ⟨x, y, rfl, hx⟩ := List.eq_append_cons_of_mem colon
    rw [takeWhile_ne_mark hx, List.append_assoc, List.cons_append, List.append_assoc,
      List.takeWhile_cons_of_pos (by decide), List.cons_append, takeWhile_ne_mark hx]

/-- What stands before the first `:` is the host exactly when that is not an IPv6 address. -/
theorem Host.eq_beforeColon_iff (host : Host) :
    EqIgnoreAsciiCase host.beforeColon host.text ↔ ∃ text chars, host = .name text chars := by
  cases host with
  | name text chars => exact iff_of_true rfl ⟨text, chars, rfl⟩
  | ipv6 addr chars colon =>
    constructor
    · intro h
      have hlen := h.length_eq
      have hle := (List.takeWhile_sublist (l := addr) fun c => decide (c ≠ ':')).length_le
      simp only [Host.beforeColon, Host.text, List.length_cons, List.length_append, List.length_nil] at hlen
      omega
    · rintro ⟨_, _, h⟩
      cases h

end Lib
