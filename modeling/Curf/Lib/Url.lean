import Curf.Lib.First
import Curf.Lib.Lowercase
import Mathlib.Algebra.Group.Nat.Defs
import Mathlib.Data.List.DropRight

/-!
# URLs in parts

A URL is a scheme, user information, a host, a port and a path, each set off from the
next by its mark; the query and the fragment are one part here. A scheme and user
information may be missing, and a URL without a scheme ends with its authority.

`splitLast` cuts a text at the last of a character and `trimEnd` takes a character off
its end; `Url.trimEnd_text` is what the second leaves of a URL.
-/

namespace Lib

variable {c d : Char} {s t a b : Text}

/-! ## Cutting texts -/

/-- What stands before and after the last `c`. -/
def splitLast (c : Char) : Text → Option (Text × Text)
  | [] => none
  | x :: xs =>
    match splitLast c xs with
    | some (before, after) => some (x :: before, after)
    | none => if x = c then some ([], xs) else none

theorem splitLast_eq_none (h : c ∉ s) : splitLast c s = none := by
  induction s with
  | nil => rfl
  | cons x xs ih =>
    obtain ⟨hx, hxs⟩ := List.ne_and_not_mem_of_not_mem_cons h
    rw [splitLast, ih hxs]
    exact if_neg (Ne.symm hx)

theorem splitLast_append (h : c ∉ b) : splitLast c (a ++ c :: b) = some (a, b) := by
  induction a with
  | nil =>
    rw [List.nil_append, splitLast, splitLast_eq_none h]
    exact if_pos rfl
  | cons x xs ih => rw [List.cons_append, splitLast, ih]

/-- A text with a `c` has a last one. -/
theorem eq_append_last (h : c ∈ s) : ∃ a b, s = a ++ c :: b ∧ c ∉ b := by
  induction s with
  | nil => cases h
  | cons x xs ih =>
    by_cases hxs : c ∈ xs
    · obtain ⟨a, b, rfl, hb⟩ := ih hxs
      exact ⟨x :: a, b, rfl, hb⟩
    · rcases List.mem_cons.mp h with rfl | h
      · exact ⟨[], xs, rfl, hxs⟩
      · exact absurd h hxs

theorem append_last_inj {a' b' : Text} (hb : c ∉ b) (hb' : c ∉ b') :
    a ++ c :: b = a' ++ c :: b' ↔ a = a' ∧ b = b' := by
  constructor
  · intro h
    have hsplit := congrArg (splitLast c) h
    rw [splitLast_append hb, splitLast_append hb'] at hsplit
    simpa using hsplit
  · rintro ⟨rfl, rfl⟩
    rfl

theorem append_first_inj {a' b' : Text} (ha : c ∉ a) (ha' : c ∉ a') (h : a ++ c :: b = a' ++ c :: b') :
    a = a' ∧ b = b' := by
  have heq : a = a' := by rw [← takeWhile_ne_mark ha b, h, takeWhile_ne_mark ha']
  subst heq
  exact ⟨rfl, (List.cons.inj (List.append_cancel_left h)).2⟩

/-- The text without the `c`s at its end. -/
def trimEnd (c : Char) (s : Text) : Text := s.rdropWhile (· = c)

theorem trimEnd_append (h : c ∉ s) (hs : s ≠ []) : trimEnd c (a ++ s ++ t) = a ++ s ++ trimEnd c t := by
  induction t using List.reverseRecOn with
  | nil =>
    rw [List.append_nil, trimEnd, trimEnd, List.rdropWhile_nil, List.append_nil]
    refine List.rdropWhile_eq_self_iff.mpr fun hne => ?_
    rw [List.getLast_append_of_ne_nil _ hs]
    exact fun he => h (of_decide_eq_true he ▸ List.getLast_mem hs)
  | append_singleton t x ih =>
    rw [← List.append_assoc]
    unfold trimEnd at ih ⊢
    by_cases hx : x = c
    · rw [List.rdropWhile_concat, List.rdropWhile_concat, if_pos (decide_eq_true hx), ih,
        if_pos (decide_eq_true hx)]
    · have hx' : ¬ decide (x = c) = true := by simpa using hx
      rw [List.rdropWhile_concat, List.rdropWhile_concat, if_neg hx', if_neg hx', List.append_assoc]

theorem trimEnd_prefix (c : Char) (s : Text) : trimEnd c s <+: s := List.rdropWhile_prefix _ _

/-- `str::parse::<u16>`: digits, after a `+` if there is one. -/
def parseU16 (s : Text) : Option UInt16 :=
  let digits : Text := if s.head? = some '+' then s.tail else s
  let value : Nat := digits.foldl (fun n c => 10 * n + (c.toNat - '0'.toNat)) 0
  if digits ≠ [] ∧ digits.all Char.isDigit = true ∧ value < 2 ^ 16 then some (.ofNat value) else none

theorem parseU16_eq_none (hc : c ∈ s) (hdigit : c.isDigit = false) (hplus : c ≠ '+') : parseU16 s = none := by
  have hbad {digits : Text} (h : c ∈ digits) : ¬ digits.all Char.isDigit = true := fun hall => by
    have := List.all_eq_true.mp hall c h
    rw [hdigit] at this
    cases this
  unfold parseU16
  dsimp only
  split
  · rename_i hhead
    cases s with
    | nil => cases hc
    | cons x xs =>
      cases hhead
      have hc : c ∈ xs := (List.mem_cons.mp hc).resolve_left hplus
      exact if_neg fun h => hbad hc h.2.1
  · exact if_neg fun h => hbad hc h.2.1

/-! ## URLs -/

/-- The marks that a query and a fragment begin with. -/
def isRestMark (c : Char) : Bool := c = '?' || c = '#'

/-- A character that an authority ends before. -/
def endsAuthority (c : Char) : Bool := c = '/' || isRestMark c

structure Url where
  scheme : Option Text
  userinfo : Option Text
  host : Text
  port : Option Text
  path : Text
  /-- The query and the fragment. -/
  rest : Text
  scheme_chars : (scheme.getD []).all (fun c => c ≠ ':') = true
  userinfo_chars : (userinfo.getD []).all (fun c => !endsAuthority c) = true
  host_chars : host.all (fun c => !endsAuthority c && c ≠ '@') = true
  port_chars : (port.getD []).all (fun c => !endsAuthority c && c ≠ '@' && c ≠ ':') = true
  bracketed : ':' ∈ host → host.head? = some '[' ∧ host.getLast? = some ']'
  nonempty : host ≠ [] ∨ port ≠ none
  path_slash : path = [] ∨ path.head? = some '/'
  rest_mark : rest = [] ∨ rest.head?.any isRestMark = true
  bare : scheme = none → path = [] ∧ rest = []

namespace Url

variable (u : Url)

def schemeText : Text := (u.scheme.map (· ++ "://".toList)).getD []

def userinfoText : Text := (u.userinfo.map (· ++ ['@'])).getD []

def portText : Text := (u.port.map (':' :: ·)).getD []

def authority : Text := u.userinfoText ++ u.host ++ u.portText

def text : Text := u.schemeText ++ u.authority ++ u.path ++ u.rest

/-- What follows the authority, without the slashes at the end. -/
def trimmed : Text := trimEnd '/' (u.path ++ u.rest)

variable {u}

theorem userinfo_not {ui : Text} (h : u.userinfo = some ui) (hc : c ∈ ui) : endsAuthority c = false := by
  have hall := u.userinfo_chars
  rw [h] at hall
  simpa using List.all_eq_true.mp hall c hc

theorem host_not (hc : c ∈ u.host) : endsAuthority c = false ∧ c ≠ '@' := by
  simpa using List.all_eq_true.mp u.host_chars c hc

theorem port_not {p : Text} (h : u.port = some p) (hc : c ∈ p) :
    endsAuthority c = false ∧ c ≠ '@' ∧ c ≠ ':' := by
  have hall := u.port_chars
  rw [h] at hall
  simpa [and_assoc] using List.all_eq_true.mp hall c hc

theorem authority_ne_nil : u.authority ≠ [] := by
  unfold authority portText
  rcases u.nonempty with h | h
  · simp [h]
  · obtain ⟨p, hp⟩ := Option.ne_none_iff_exists'.mp h
    simp [hp]

theorem authority_not (hc : c ∈ u.authority) : endsAuthority c = false := by
  rcases List.mem_append.mp hc with hc | hc
  · rcases List.mem_append.mp hc with hc | hc
    · unfold userinfoText at hc
      cases hui : u.userinfo with
      | none => rw [hui] at hc; cases hc
      | some ui =>
        rw [hui] at hc
        rcases List.mem_append.mp hc with hc | hc
        · exact userinfo_not hui hc
        · obtain rfl := List.mem_singleton.mp hc
          rfl
    · exact (host_not hc).1
  · unfold portText at hc
    cases hp : u.port with
    | none => rw [hp] at hc; cases hc
    | some p =>
      rw [hp] at hc
      rcases List.mem_cons.mp hc with rfl | hc
      · rfl
      · exact (port_not hp hc).1

theorem slash_not_mem_authority : '/' ∉ u.authority := fun h => by
  have := authority_not h
  cases this

/-- Slashes are taken off what follows the authority only. -/
theorem trimEnd_text : trimEnd '/' u.text = u.schemeText ++ u.authority ++ u.trimmed := by
  unfold text trimmed
  rw [List.append_assoc _ u.path]
  exact trimEnd_append slash_not_mem_authority authority_ne_nil

/-- Without slashes in it, what follows the authority is empty or begins with a mark. -/
theorem trimmed_mark (h : '/' ∉ u.trimmed) :
    u.trimmed = [] ∨ ∃ m t, u.trimmed = m :: t ∧ isRestMark m = true := by
  obtain ⟨t, ht⟩ := trimEnd_prefix '/' (u.path ++ u.rest)
  change u.trimmed ++ t = u.path ++ u.rest at ht
  cases htr : u.trimmed with
  | nil => exact .inl rfl
  | cons m q =>
    refine .inr ⟨m, q, rfl, ?_⟩
    rw [htr] at h ht
    have hm : m ≠ '/' := fun he => h (he ▸ List.mem_cons_self)
    have hpath : u.path = [] := by
      rcases u.path_slash with hp | hp
      · exact hp
      · cases hpt : u.path with
        | nil => rfl
        | cons x xs =>
          rw [hpt] at hp ht
          cases hp
          exact absurd (List.cons.inj ht).1 hm
    rw [hpath, List.nil_append] at ht
    rcases u.rest_mark with hr | hr
    · rw [hr] at ht
      cases ht
    · rw [← ht] at hr
      exact hr

end Url

end Lib
