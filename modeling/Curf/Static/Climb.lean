import Mathlib.Data.List.Infix
import Curf.Lib.TreeWalk
import Curf.Static.SafePath

/-!
# Paths that leave the root and come back

`safe_path` pops components of the root itself when a path has more `..` than names
before them, and looks at the end whether the root is a prefix of what it has got. So
a path may climb above the root and name the root's directories on its way back.
`followsStack_iff` says which paths are resolved in this way.
-/

namespace Curf

open Lib Lib.UnixPath Lib.TreeWalk

/-- The steps that the components of a path stand for. -/
def stepOf : Component UInt8 → Option (Move Bytes)
  | .normal name => some (.down name)
  | .parentDir => some .up
  | .rootDir | .curDir | .drivePrefix _ => none

def stepsOf (cs : List (Component UInt8)) : List (Move Bytes) := cs.filterMap stepOf

/-- Up to some point the components have more `..` than names. -/
def Climbs (cs : List (Component UInt8)) : Prop :=
  ∃ pre, pre <+: cs ∧ pre.countP isNormal < pre.count .parentDir

/-- The levels that the components lead up above the start. -/
def levelsUp (cs : List (Component UInt8)) : Nat := (climb (stepsOf cs)).1

/-- The names left after each `..` has cancelled the name before it. -/
def namesLeft (cs : List (Component UInt8)) : List Bytes := (climb (stepsOf cs)).2

variable {cs : List (Component UInt8)} {here : List Bytes} {result root : Bytes}

theorem countP_stepsOf (cs : List (Component UInt8)) :
    (stepsOf cs).countP Move.isUp = cs.count .parentDir ∧
      (stepsOf cs).countP Move.isDown = cs.countP isNormal := by
  rw [stepsOf, List.countP_filterMap, List.countP_filterMap, List.count]
  constructor
  · refine List.countP_congr fun c _ => ?_
    cases c <;> simp [stepOf, Move.isUp, Move.isDown]
  · refine List.countP_congr fun c _ => ?_
    cases c <;> simp [stepOf, Move.isDown, isNormal]

theorem climbs_iff : Climbs cs ↔ levelsUp cs ≠ 0 := by
  rw [levelsUp, Ne, climb_eq_zero_iff, Climbs]
  constructor
  · rintro ⟨pre, hpre, hlt⟩ hall
    have hle := hall (stepsOf pre) (hpre.filterMap stepOf)
    obtain ⟨hup, hdown⟩ := countP_stepsOf pre
    omega
  · intro h
    by_contra hno
    refine h fun pre hpre => ?_
    obtain ⟨pre', hpre', rfl⟩ := List.prefix_filterMap_iff.mp hpre
    obtain ⟨hup, hdown⟩ := countP_stepsOf pre'
    have hle : ¬ pre'.countP isNormal < pre'.count .parentDir := fun hlt => hno ⟨pre', hpre', hlt⟩
    unfold stepsOf at hup hdown
    omega

/-- The loop of `safe_path` walks in the tree of directories. -/
theorem resolve_eq_walk (hcs : ∀ part, .normal part ∈ cs → IsName part) (hdrive : ∀ text, .drivePrefix text ∉ cs)
    (h : components result = .rootDir :: here.map .normal) :
    (resolve cs result).map components =
      (walk here (stepsOf cs)).map fun names => .rootDir :: names.map .normal := by
  induction cs generalizing here result with
  | nil => exact congrArg some h
  | cons c cs ih =>
    have hrest := fun here result => @ih here result (fun part hp => hcs part (List.mem_cons_of_mem _ hp))
      fun text ht => hdrive text (List.mem_cons_of_mem _ ht)
    cases c with
    | normal part =>
      refine hrest (here ++ [part]) (push result part) ?_
      rw [components_push result (hcs part List.mem_cons_self), h, List.map_append]
      rfl
    | parentDir =>
      have hresolve : resolve (.parentDir :: cs) result = (parent result).bind (resolve cs) := by
        rw [resolve]
        cases parent result <;> rfl
      rw [hresolve]
      show _ = (if here = [] then none else walk here.dropLast (stepsOf cs)).map _
      cases hp : parent result with
      | none =>
        have hnil : here = [] := by
          rcases parent_eq_none_iff.mp hp with he | he
          · rw [h] at he
            cases he
          · rw [h] at he
            exact List.map_eq_nil_iff.mp (List.cons.inj he).2
        rw [if_pos hnil]
        rfl
      | some p =>
        have hne : here ≠ [] := by
          rintro rfl
          rw [parent_eq_none_iff.mpr (.inr h)] at hp
          cases hp
        rw [if_neg hne]
        refine hrest here.dropLast p ?_
        rw [components_parent hp, h, List.dropLast_cons_of_ne_nil (by simpa using hne), List.map_dropLast]
    | rootDir => exact hrest here result h
    | curDir => exact hrest here result h
    | drivePrefix text => exact absurd List.mem_cons_self (hdrive text)

namespace StaticFileServer

variable {percentDecode : Bytes → Bytes} {sf : StaticFileServer} {urlPath : Bytes}

/-- The components that `safe_path` goes through. -/
def pathComponents (percentDecode : Bytes → Bytes) (urlPath : Bytes) : List (Component UInt8) :=
  components (cleanPath percentDecode urlPath)

/-- The path goes above the root and comes back through the directories of the root it
has left: their names are the first of those left. -/
def Reenters (percentDecode : Bytes → Bytes) (sf : StaticFileServer) (urlPath : Bytes) : Prop :=
  let up := levelsUp (pathComponents percentDecode urlPath)
  0 < up ∧ up ≤ (names sf.root).length ∧
    (names sf.root).drop ((names sf.root).length - up) <+: namesLeft (pathComponents percentDecode urlPath)

/-- A path that climbs above the root is refused, and any other one leads to the root
with the names left after it. -/
def FollowsStack (percentDecode : Bytes → Bytes) (sf : StaticFileServer) (urlPath : Bytes) : Prop :=
  (Climbs (pathComponents percentDecode urlPath) → sf.safePath percentDecode urlPath = none) ∧
    (¬ Climbs (pathComponents percentDecode urlPath) →
      ∃ p, sf.safePath percentDecode urlPath = some p ∧
        components p = components sf.root ++ (namesLeft (pathComponents percentDecode urlPath)).map .normal)

theorem normal_injective : Function.Injective (Component.normal : Bytes → Component UInt8) :=
  fun _ _ h => Component.normal.inj h

/-- What `safe_path` returns: where the walk from the root ends, if the root is above it. -/
theorem map_components_safePath (habs : isAbsolute sf.root = true) (hroot : .parentDir ∉ components sf.root)
    (hutf : (percentDecode urlPath).isUtf8 = true) :
    (sf.safePath percentDecode urlPath).map components =
      ((walk (names sf.root) (stepsOf (pathComponents percentDecode urlPath))).filter fun end_ =>
        (names sf.root).isPrefixOf end_).map fun end_ => .rootDir :: end_.map .normal := by
  have hnames := components_eq_names habs hroot
  have hwalk : (resolve (components (cleanPath percentDecode urlPath)) sf.root).map components =
      (walk (names sf.root) (stepsOf (components (cleanPath percentDecode urlPath)))).map fun end_ =>
        .rootDir :: end_.map .normal :=
    resolve_eq_walk (fun _ => isName_of_mem_components) drivePrefix_not_mem_components hnames
  unfold pathComponents
  simp only [safePath, hutf, Bool.true_eq_false, if_false]
  cases hr : resolve (components (cleanPath percentDecode urlPath)) sf.root with
  | none =>
    rw [hr] at hwalk
    rw [Option.map_eq_none_iff.mp hwalk.symm]
    rfl
  | some result =>
    rw [hr] at hwalk
    obtain ⟨end_, hend, hresult⟩ := Option.map_eq_some_iff.mp hwalk.symm
    have hiff : startsWith result sf.root = (names sf.root).isPrefixOf end_ := by
      rw [Bool.eq_iff_iff, startsWith_iff, List.isPrefixOf_iff_prefix, ← hresult, hnames, List.cons_prefix_cons,
        and_iff_right rfl]
      exact List.prefix_map_iff_of_injective normal_injective
    rw [hend]
    dsimp only
    rw [hiff, Option.filter_some]
    split
    · exact congrArg some hresult.symm
    · rfl

/-- The root is above the end of the walk if the walk does not leave it, or comes back. -/
theorem names_prefix_iff {n : Nat} {left : List Bytes} :
    here <+: here.take (here.length - n) ++ left ↔ here.drop (here.length - n) <+: left := by
  conv => lhs; lhs; rw [← List.take_append_drop (here.length - n) here]
  exact List.prefix_append_right_inj _

theorem safePath_eq_none_iff (habs : isAbsolute sf.root = true) (hroot : .parentDir ∉ components sf.root)
    (hutf : (percentDecode urlPath).isUtf8 = true) (hup : levelsUp (pathComponents percentDecode urlPath) ≠ 0) :
    sf.safePath percentDecode urlPath = none ↔ ¬ sf.Reenters percentDecode urlPath := by
  rw [← Option.map_eq_none_iff (f := components), map_components_safePath habs hroot hutf, Option.map_eq_none_iff,
    walk_eq, Reenters]
  unfold levelsUp namesLeft at *
  rw [and_iff_right (Nat.pos_of_ne_zero hup)]
  split
  · rename_i hle
    rw [Option.filter_some]
    simp only [List.isPrefixOf_iff_prefix, names_prefix_iff, hle, true_and]
    split
    · rename_i h; simpa using h
    · rename_i h; simpa using h
  · rename_i hle
    simp [hle]

/-- **Paths and the stack.** With an absolute root without `..` and a path that is valid
UTF-8, `safe_path` follows the stack exactly when the path does not go above the root and
come back through the directories it has left. -/
theorem followsStack_iff (percentDecode : Bytes → Bytes) (sf : StaticFileServer) (urlPath : Bytes)
    (habs : isAbsolute sf.root = true) (hroot : .parentDir ∉ components sf.root)
    (hutf : (percentDecode urlPath).isUtf8 = true) :
    sf.FollowsStack percentDecode urlPath ↔ ¬ sf.Reenters percentDecode urlPath := by
  rw [FollowsStack, climbs_iff, not_not]
  by_cases hup : levelsUp (pathComponents percentDecode urlPath) = 0
  · have hno : ¬ sf.Reenters percentDecode urlPath := fun h => absurd hup h.1.ne'
    refine iff_of_true ⟨fun h => absurd hup h, fun _ => ?_⟩ hno
    have hpath := map_components_safePath habs hroot hutf
    rw [walk_eq, show (climb (stepsOf (pathComponents percentDecode urlPath))).1 = 0 from hup,
      if_pos (Nat.zero_le _), Nat.sub_zero, List.take_length, Option.filter_some, if_pos (by simp)] at hpath
    obtain ⟨p, hp, hc⟩ := Option.map_eq_some_iff.mp hpath
    refine ⟨p, hp, ?_⟩
    rw [hc, components_eq_names habs hroot]
    exact congrArg _ List.map_append
  · rw [safePath_eq_none_iff habs hroot hutf hup]
    exact ⟨fun h => h.1 hup, fun h => ⟨fun _ => h, fun h => absurd h hup⟩⟩

/-- `/a/../b` stays below the root. -/
theorem followsStack_below :
    StaticFileServer.FollowsStack decodePercent ⟨"/srv".toUTF8.data.toList, [], false⟩
      "/a/../b".toUTF8.data.toList :=
  (followsStack_iff decodePercent ⟨"/srv".toUTF8.data.toList, [], false⟩ "/a/../b".toUTF8.data.toList
    (by decide) (by decide) (by decide)).mpr (by unfold Reenters; decide)

/-- **Above the root and back.** With the root `/srv`, the path `/../srv/x` is resolved
to `/srv/x`. -/
theorem climbing_path_resolved :
    ¬ ∀ (sf : StaticFileServer) (urlPath : Bytes), isAbsolute sf.root = true →
      .parentDir ∉ components sf.root → (decodePercent urlPath).isUtf8 = true →
      sf.FollowsStack decodePercent urlPath := by
  intro h
  have hclimbs : Climbs (pathComponents decodePercent "/../srv/x".toUTF8.data.toList) :=
    climbs_iff.mpr (by decide)
  have := (h ⟨"/srv".toUTF8.data.toList, [], false⟩ "/../srv/x".toUTF8.data.toList
    (by decide) (by decide) (by decide)).1 hclimbs
  exact absurd this (by decide)

end StaticFileServer

end Curf
