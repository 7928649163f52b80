import Mathlib.Data.List.Basic
import Grizol.Library.Separated

/-!
# Paths

`str::split` at a slash, and `std::path::Path`: a path is the list of its components.
Repeated slashes, a slash at the end and the components `.` are left out, but for a `.`
at the beginning. A canonical relative path has the same components either way.
-/

set_option autoImplicit false

namespace Grizol.Library.Path

/-- `path.split("/")`. -/
def split (path : String) : List String := Separated.split '/' path

/-- `parts.join("/")`. -/
def join (parts : List String) : String := Separated.join '/' parts

/-- A component of a path, as `std::path::Component`. -/
inductive Component where
  | rootDir
  | curDir
  | parentDir
  | normal (name : String)
  deriving DecidableEq, Repr

/-- A part that is neither empty nor `.`. -/
def Component.ofPart (part : String) : Component := if part = ".." then .parentDir else .normal part

/-- `Path::components`. -/
def components (path : String) : List Component :=
  let parts := split path
  let body := (parts.filter fun part => part ≠ "" && part ≠ ".").map Component.ofPart
  match parts with
  | "" :: _ :: _ => .rootDir :: body
  | "." :: _ => .curDir :: body
  | _ => body

/-- `Path::strip_prefix`. -/
def stripPrefix (path base : List Component) : Option (List Component) :=
  if base.isPrefixOf path then some (path.drop base.length) else none

/-- `Path::file_name`. -/
def fileName (path : List Component) : Option String :=
  match path.getLast? with
  | some (.normal name) => some name
  | _ => none

/-- The text of a component. -/
def Component.text : Component → String
  | .rootDir => ""
  | .curDir => "."
  | .parentDir => ".."
  | .normal name => name

/-- `Path::as_os_str`. -/
def asOsStr (path : List Component) : String := join (path.map Component.text)

/-! ## Splitting and joining -/

/-- A path has at least one part. -/
theorem split_ne_nil (path : String) : split path ≠ [] := Separated.split_ne_nil path

/-- The parts of a path make it up. -/
theorem join_split (path : String) : join (split path) = path := Separated.join_split path

/-- A path is known by its parts. -/
theorem split_injective {path path' : String} (h : split path = split path') : path = path' :=
  Separated.split_injective h

/-- The parts of two paths with a slash between them. -/
theorem split_append_slash (path path' : String) :
    split (path ++ "/" ++ path') = split path ++ split path' := by
  have htext : (path ++ "/" ++ path').toList = path.toList ++ '/' :: path'.toList := by
    simp
  rw [split, Separated.split, htext, List.splitOn_append_cons_self, List.map_append]
  rfl

/-- One part is a path on its own. -/
theorem join_singleton (name : String) : join [name] = name := Separated.join_singleton name

/-- A part without a slash is all there is. -/
theorem split_of_not_mem {name : String} (h : '/' ∉ name.toList) : split name = [name] :=
  Separated.split_of_not_mem h

/-- The text of two paths, one after the other. -/
theorem join_append {parts parts' : List String} (h : parts ≠ []) (h' : parts' ≠ []) :
    join (parts ++ parts') = join parts ++ "/" ++ join parts' := by
  have hchars : ∀ l l' : List (List Char), l ≠ [] → l' ≠ [] →
      ['/'].intercalate (l ++ l') = ['/'].intercalate l ++ '/' :: ['/'].intercalate l' := by
    intro l l' hl hl'
    induction l with
    | nil => exact absurd rfl hl
    | cons part l ih =>
        cases l with
        | nil =>
            obtain ⟨part', l', rfl⟩ := List.exists_cons_of_ne_nil hl'
            rw [List.singleton_append, List.intercalate_cons_cons, List.intercalate_singleton,
              List.append_assoc, List.singleton_append]
        | cons part' l =>
            rw [List.cons_append, List.cons_append, List.intercalate_cons_cons, ← List.cons_append,
              ih (List.cons_ne_nil _ _), List.intercalate_cons_cons]
            simp only [List.append_assoc]
  rw [join, Separated.join, List.map_append, hchars _ _ (by simpa using h) (by simpa using h')]
  apply String.toList_injective
  simp [join, Separated.join]

/-- A path with all parts of another in front goes on after it. -/
theorem append_of_split_prefix {path name : String} (h : split path <+: split name) :
    name = path ∨ ∃ rest, name = path ++ "/" ++ rest := by
  obtain ⟨rest, hrest⟩ := h
  by_cases hnil : rest = []
  · rw [hnil, List.append_nil] at hrest
    exact Or.inl (split_injective hrest.symm)
  · refine Or.inr ⟨join rest, ?_⟩
    rw [← join_split name, ← hrest, join_append (split_ne_nil path) hnil, join_split]

/-- A component of a name is the name. -/
theorem asOsStr_normal (name : String) : asOsStr [.normal name] = name := join_singleton name

/-! ## Canonical paths -/

/-- A relative path with no part that `components` leaves out or goes up by. -/
def Canonical (path : String) : Prop := ∀ part ∈ split path, part ≠ "" ∧ part ≠ "." ∧ part ≠ ".."

/-- No part of a canonical path is left out. -/
theorem components_of_canonical {path : String} (h : Canonical path) :
    components path = (split path).map Component.normal := by
  have hkept : ((split path).filter fun part => part ≠ "" && part ≠ ".") = split path := by
    refine List.filter_eq_self.mpr fun part hpart => ?_
    obtain ⟨hempty, hdot, -⟩ := h part hpart
    simp [hempty, hdot]
  have hnormal : (split path).map Component.ofPart = (split path).map Component.normal :=
    List.map_congr_left fun part hpart => if_neg (h part hpart).2.2
  rw [components, hkept, hnormal]
  split
  · rename_i hparts
    exact absurd rfl (h "" (by rw [hparts]; exact List.mem_cons_self)).1
  · rename_i hparts
    exact absurd rfl (h "." (by rw [hparts]; exact List.mem_cons_self)).2.1
  · rfl

/-- The name of a part of a canonical path. -/
theorem components_of_mem_split {path part : String} (h : Canonical path) (hpart : part ∈ split path) :
    components part = [.normal part] := by
  have hsingle : split part = [part] := Separated.split_of_mem_split hpart
  have hcanonical : Canonical part := by
    intro p hp
    rw [hsingle, List.mem_singleton] at hp
    rw [hp]
    exact h part hpart
  rw [components_of_canonical hcanonical, hsingle]
  rfl

/-- The empty path has no components. -/
theorem components_empty : components "" = [] := rfl

/-- Stripping one path of normal components off another. -/
theorem stripPrefix_normal {parts base : List String} :
    stripPrefix (parts.map Component.normal) (base.map Component.normal) =
      if base <+: parts then some ((parts.drop base.length).map Component.normal) else none := by
  have hinj : Function.Injective Component.normal := fun _ _ h => Component.normal.inj h
  rw [stripPrefix, List.length_map, ← List.map_drop]
  refine if_congr ?_ rfl rfl
  rw [List.isPrefixOf_iff_prefix]
  constructor
  · rintro ⟨t, ht⟩
    obtain ⟨l₁, l₂, hparts, hbase, -⟩ := List.map_eq_append_iff.mp ht.symm
    rw [hparts, List.map_injective_iff.mpr hinj hbase]
    exact List.prefix_append _ _
  · rintro ⟨t, rfl⟩
    rw [List.map_append]
    exact List.prefix_append _ _

end Grizol.Library.Path
