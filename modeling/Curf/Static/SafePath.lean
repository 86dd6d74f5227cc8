import Curf.Basic
import Curf.Lib.First
import Curf.Lib.UnixPath
import Curf.Lib.Utf8

/-!
# Resolving the path of a static file

`safe_path` decodes a URL path, cuts it off at the first `?` and walks from the
root directory along its components, `..` leading one component back; the result
counts if the root is still a prefix of it. Percent-decoding is the
`percent-encoding` crate's and a parameter here.

On the way the walk may leave the root. What it keeps is `Within`: a part of the
root's components with names after it.
-/

namespace Curf

open Lib Lib.UnixPath

/-- The alphabet of file paths: `/` and `.`. -/
instance : Lib.PathAlphabet UInt8 := ⟨47, 46, by decide⟩

structure StaticFileServer where
  root : Bytes
  indexFiles : List String
  autoindex : Bool
  deriving DecidableEq, Repr

/-- The path that `safe_path` resolves: decoded, up to the first `?`. -/
def cleanPath (percentDecode : Bytes → Bytes) (urlPath : Bytes) : Bytes :=
  (percentDecode urlPath).takeWhile (· ≠ 63)

theorem isUtf8_iff {bs : Bytes} : bs.isUtf8 = true ↔ ∃ s, bs = utf8 s := by
  rw [Bytes.isUtf8, ByteArray.validateUTF8_eq_true_iff]
  constructor
  · rintro ⟨s, hs⟩
    exact ⟨s, List.toByteArray_inj.mp hs⟩
  · rintro ⟨s, rfl⟩
    exact ⟨s, rfl⟩

/-- What is decoded to a text without `?` is resolved as a whole. -/
theorem cleanPath_of_text {percentDecode : Bytes → Bytes} {urlPath : Bytes} {text : List Char}
    (htext : percentDecode urlPath = utf8 text) (hq : '?' ∉ text) : cleanPath percentDecode urlPath = utf8 text := by
  have hmark : 63 ∉ utf8 text := fun hmem => hq ((mem_utf8_iff (by decide) rfl).mp hmem)
  rw [cleanPath, htext, takeWhile_ne hmark]

/-- The loop of `safe_path`. -/
def resolve : List (Component UInt8) → Bytes → Option Bytes
  | [], result => some result
  | .normal part :: cs, result => resolve cs (push result part)
  | .parentDir :: cs, result =>
    match parent result with
    | none => none
    | some result => resolve cs result
  | .rootDir :: cs, result | .curDir :: cs, result => resolve cs result
  | .drivePrefix _ :: _, _ => none

/-- The file path for a URL path, or `none` if it would leave the root. -/
def StaticFileServer.safePath (percentDecode : Bytes → Bytes) (sf : StaticFileServer)
    (urlPath : Bytes) : Option Bytes :=
  if (percentDecode urlPath).isUtf8 = false then none
  else
    match resolve (components (cleanPath percentDecode urlPath)) sf.root with
    | none => none
    | some result => if startsWith result sf.root then some result else none

variable {root result p : Bytes} {cs : List (Component UInt8)}

theorem safePath_eq_some_iff {percentDecode : Bytes → Bytes} {sf : StaticFileServer} {urlPath : Bytes} :
    sf.safePath percentDecode urlPath = some p ↔ (percentDecode urlPath).isUtf8 = true ∧
      resolve (components (cleanPath percentDecode urlPath)) sf.root = some p ∧ startsWith p sf.root = true := by
  unfold StaticFileServer.safePath
  cases (percentDecode urlPath).isUtf8 with
  | false => simp
  | true =>
    cases resolve (components (cleanPath percentDecode urlPath)) sf.root with
    | none => simp
    | some result =>
      simp only [Bool.true_eq_false, if_false, Option.some.injEq, true_and]
      by_cases h : startsWith result sf.root = true
      · rw [if_pos h, Option.some.injEq]
        constructor
        · rintro rfl
          exact ⟨rfl, h⟩
        · exact fun h => h.1
      · rw [if_neg h]
        refine iff_of_false nofun ?_
        rintro ⟨rfl, hs⟩
        exact h hs

theorem resolve_append (cs cs' : List (Component UInt8)) (result : Bytes) :
    resolve (cs ++ cs') result = (resolve cs result).bind (resolve cs') := by
  induction cs generalizing result with
  | nil => rfl
  | cons c cs ih =>
    cases c with
    | normal part => exact ih (push result part)
    | parentDir =>
      rw [List.cons_append, resolve, resolve]
      cases parent result with
      | none => rfl
      | some result => exact ih result
    | rootDir => exact ih result
    | curDir => exact ih result
    | drivePrefix text => rfl

/-- Some of the root's components, and names after them that satisfy `P`. -/
def WithinBy (P : Bytes → Prop) (root result : Bytes) : Prop :=
  ∃ (k : Nat) (names : List Bytes),
    components result = (components root).take k ++ names.map .normal ∧ ∀ name ∈ names, P name

/-- Some of the root's components, and names after them. -/
def Within (root result : Bytes) : Prop :=
  ∃ (k : Nat) (names : List Bytes), components result = (components root).take k ++ names.map .normal

variable {P : Bytes → Prop}

theorem withinBy_self (P : Bytes → Prop) (root : Bytes) : WithinBy P root root :=
  ⟨(components root).length, [], by simp, nofun⟩

theorem WithinBy.push (h : WithinBy P root result) {part : Bytes} (hpart : IsName part) (hP : P part) :
    WithinBy P root (push result part) := by
  obtain ⟨k, names, hc, hnames⟩ := h
  refine ⟨k, names ++ [part], ?_, ?_⟩
  · rw [components_push result hpart, hc, List.append_assoc, List.map_append]
    rfl
  · intro name hname
    rcases List.mem_append.mp hname with hname | hname
    · exact hnames name hname
    · rwa [List.mem_singleton.mp hname]

theorem WithinBy.parent (h : WithinBy P root result) (hp : parent result = some p) : WithinBy P root p := by
  obtain ⟨k, names, hc, hnames⟩ := h
  have hdrop := components_parent hp
  rw [hc] at hdrop
  rcases List.eq_nil_or_concat names with rfl | ⟨names, name, rfl⟩
  · rw [List.map_nil, List.append_nil, List.dropLast_eq_take, List.take_take] at hdrop
    exact ⟨_, [], by rw [hdrop, List.map_nil, List.append_nil], nofun⟩
  · refine ⟨k, names, ?_, fun name' h => hnames name' ?_⟩
    · rw [hdrop, List.concat_eq_append, List.map_append, ← List.append_assoc, List.map_singleton,
        List.dropLast_concat]
    · rw [List.concat_eq_append]
      exact List.mem_append_left _ h

/-- The names below the root are among those that the walk came by. -/
theorem WithinBy.names (h : WithinBy P root result) {names : List Bytes}
    (hc : components result = components root ++ names.map .normal) : ∀ name ∈ names, P name := by
  obtain ⟨k, names', hresult, hnames⟩ := h
  have hlast : (components root).drop k ++ names.map .normal = names'.map .normal := by
    have hall : (components root).take k ++ ((components root).drop k ++ names.map .normal) =
        (components root).take k ++ names'.map .normal := by
      rw [← List.append_assoc, List.take_append_drop]
      exact hc.symm.trans hresult
    exact List.append_cancel_left hall
  intro name hname
  have hmem : Component.normal name ∈ names'.map .normal := by
    rw [← hlast]
    exact List.mem_append_right _ (List.mem_map_of_mem hname)
  obtain ⟨name', hname', he⟩ := List.mem_map.mp hmem
  obtain rfl := Component.normal.inj he
  exact hnames _ hname'

/-- The walk stays within the root, by the names it comes by. -/
theorem withinBy_resolve (hcs : ∀ part, .normal part ∈ cs → IsName part ∧ P part) (h : WithinBy P root result)
    (hr : resolve cs result = some p) : WithinBy P root p := by
  induction cs generalizing result with
  | nil => cases hr; exact h
  | cons c cs ih =>
    have hrest : ∀ part, .normal part ∈ cs → IsName part ∧ P part :=
      fun part hp => hcs part (List.mem_cons_of_mem _ hp)
    cases c with
    | normal part =>
      obtain ⟨hname, hP⟩ := hcs part List.mem_cons_self
      exact ih hrest (h.push hname hP) hr
    | parentDir =>
      simp only [resolve] at hr
      split at hr
      · cases hr
      · rename_i hp; exact ih hrest (h.parent hp) hr
    | rootDir => exact ih hrest h hr
    | curDir => exact ih hrest h hr
    | drivePrefix text => cases hr

/-- The walk stays within the root. -/
theorem within_resolve (hcs : ∀ part, .normal part ∈ cs → IsName part) (hr : resolve cs root = some p) :
    Within root p := by
  obtain ⟨k, names, hc, -⟩ := withinBy_resolve (P := fun _ => True) (fun part hp => ⟨hcs part hp, trivial⟩)
    (withinBy_self _ root) hr
  exact ⟨k, names, hc⟩

/-- Within the root and with the root as a prefix, only names are left over. -/
theorem Within.names_of_startsWith (h : Within root p) (hs : startsWith p root = true) :
    ∃ names : List Bytes, components p = components root ++ names.map .normal := by
  obtain ⟨k, names, hc⟩ := h
  obtain ⟨rest, hrest⟩ := startsWith_iff.mp hs
  refine ⟨names.drop ((components root).length - ((components root).take k).length), ?_⟩
  have := congrArg (List.drop (components root).length) (hrest.trans hc)
  have hle : ((components root).take k).length ≤ (components root).length := List.length_take_le' ..
  rw [List.drop_left, List.drop_append, List.drop_of_length_le hle, List.nil_append,
    ← List.map_drop] at this
  rw [← hrest, this]

def isNormal : Component UInt8 → Bool
  | .normal _ => true
  | _ => false

/-- Without `..` the walk only adds names. -/
theorem resolve_of_no_parentDir (hcs : ∀ part, .normal part ∈ cs → IsName part)
    (hparent : .parentDir ∉ cs) (hdrive : ∀ text, .drivePrefix text ∉ cs) (result : Bytes) :
    ∃ p, resolve cs result = some p ∧ components p = components result ++ cs.filter isNormal := by
  induction cs generalizing result with
  | nil => exact ⟨result, rfl, by simp⟩
  | cons c cs ih =>
    have hrest := ih (fun part hp => hcs part (List.mem_cons_of_mem _ hp))
      (fun h => hparent (List.mem_cons_of_mem _ h)) fun text h => hdrive text (List.mem_cons_of_mem _ h)
    cases c with
    | normal part =>
      obtain ⟨p, hp, hc⟩ := hrest (push result part)
      refine ⟨p, hp, ?_⟩
      rw [hc, components_push result (hcs part List.mem_cons_self), List.append_assoc]; rfl
    | parentDir => exact absurd List.mem_cons_self hparent
    | rootDir => exact hrest result
    | curDir => exact hrest result
    | drivePrefix text => exact absurd List.mem_cons_self (hdrive text)

/-- The walk adds one component at most for each name. -/
theorem length_resolve_le (hcs : ∀ part, .normal part ∈ cs → IsName part) (hr : resolve cs result = some p) :
    (components p).length ≤ (components result).length + (cs.filter isNormal).length := by
  induction cs generalizing result with
  | nil =>
    cases hr
    exact Nat.le_add_right _ _
  | cons c cs ih =>
    have hrest : ∀ part, .normal part ∈ cs → IsName part := fun part hp => hcs part (List.mem_cons_of_mem _ hp)
    cases c with
    | normal part =>
      have hle := ih hrest hr
      rw [components_push result (hcs part List.mem_cons_self), List.length_append, List.length_singleton] at hle
      rw [List.filter_cons_of_pos rfl, List.length_cons]
      omega
    | parentDir =>
      simp only [resolve] at hr
      split at hr
      · cases hr
      · rename_i hp
        have hle := ih hrest hr
        rw [components_parent hp, List.length_dropLast] at hle
        rw [List.filter_cons_of_neg (by decide)]
        omega
    | rootDir => exact ih hrest hr
    | curDir => exact ih hrest hr
    | drivePrefix text => cases hr

namespace StaticFileServer

def hexDigit (b : UInt8) : Option UInt8 :=
  if 48 ≤ b ∧ b ≤ 57 then some (b - 48)
  else if 65 ≤ b ∧ b ≤ 70 then some (b - 55)
  else if 97 ≤ b ∧ b ≤ 102 then some (b - 87)
  else none

/-- What the crate documents of `percent_decode_str`: `%` and two hexadecimal digits
stand for a byte, anything else for itself. -/
def decodePercent : Bytes → Bytes
  | [] => []
  | 37 :: a :: b :: bs =>
    match hexDigit a, hexDigit b with
    | some x, some y => (16 * x + y) :: decodePercent bs
    | _, _ => 37 :: decodePercent (a :: b :: bs)
  | b :: bs => b :: decodePercent bs

/-- **Static paths are confined.** Whatever `safe_path` returns is the root with
names after it. A valid text without `..` before any `?` is never refused, and the
names are its own. -/
theorem safePath_confined (percentDecode : Bytes → Bytes) (sf : StaticFileServer) (urlPath : Bytes) :
    (∀ p, sf.safePath percentDecode urlPath = some p →
        ∃ names : List Bytes, components p = components sf.root ++ names.map .normal) ∧
      ((percentDecode urlPath).isUtf8 = true →
        .parentDir ∉ components (cleanPath percentDecode urlPath) →
        ∃ p, sf.safePath percentDecode urlPath = some p ∧
          components p = components sf.root ++
            (components (cleanPath percentDecode urlPath)).filter isNormal) := by
  constructor
  · intro p hp
    obtain ⟨-, hr, hs⟩ := safePath_eq_some_iff.mp hp
    exact (within_resolve (fun _ => isName_of_mem_components) hr).names_of_startsWith hs
  · intro hutf hparent
    obtain ⟨p, hr, hc⟩ := resolve_of_no_parentDir (fun _ => isName_of_mem_components) hparent
      drivePrefix_not_mem_components sf.root
    have hs : startsWith p sf.root = true := startsWith_iff.mpr ⟨_, hc.symm⟩
    exact ⟨p, safePath_eq_some_iff.mpr ⟨hutf, hr, hs⟩, hc⟩

/-- `%20` stays in its name, `.` and the query go. -/
theorem safePath_confined_query :
    ∃ p, StaticFileServer.safePath decodePercent ⟨"/srv".toUTF8.data.toList, [], false⟩
        "/a/./b%20c?x=1".toUTF8.data.toList = some p ∧
      components p = components "/srv".toUTF8.data.toList ++
        (components (cleanPath decodePercent "/a/./b%20c?x=1".toUTF8.data.toList)).filter isNormal :=
  (safePath_confined decodePercent ⟨"/srv".toUTF8.data.toList, [], false⟩ "/a/./b%20c?x=1".toUTF8.data.toList).2
    (by decide) (by decide)

end StaticFileServer

end Curf
