import Mathlib.Data.List.Basic

/-!
# Texts in one text

`str::join` and `str::split` with a separator of one character. The parts of a text give it back
when they are joined (`join_split`). What is joined is read back as long as there is something,
and no part has the separator in it (`split_join_iff`).
-/

set_option autoImplicit false

namespace Grizol.Library.Separated

variable (sep : Char)

/-- `parts.join(sep)`. -/
def join (parts : List String) : String :=
  String.ofList ([sep].intercalate (parts.map String.toList))

/-- `text.split(sep)`. -/
def split (text : String) : List String := (text.toList.splitOn sep).map String.ofList

variable {sep}

/-- No part of a list that was split has the separator in it. -/
theorem not_mem_of_mem_splitOn {α : Type} [BEq α] [LawfulBEq α] {sep : α} {part : List α}
    (l : List α) : part ∈ l.splitOn sep → sep ∉ part := by
  induction l generalizing part with
  | nil =>
      intro h
      simp_all
  | cons a l ih =>
      rw [List.splitOn_cons_eq_if_modifyHead]
      obtain ⟨first, rest, hparts⟩ : ∃ first rest, l.splitOn sep = first :: rest :=
        List.exists_cons_of_ne_nil (List.splitOn_ne_nil sep l)
      rw [hparts] at ih ⊢
      intro h
      split_ifs at h with ha
      · rcases List.mem_cons.mp h with rfl | h
        · exact List.not_mem_nil
        · exact ih h
      · rw [List.modifyHead_cons] at h
        rcases List.mem_cons.mp h with rfl | h
        · rw [List.mem_cons, not_or]
          refine ⟨?_, ih List.mem_cons_self⟩
          rintro rfl
          simp at ha
        · exact ih (List.mem_cons_of_mem _ h)

/-- A text has at least one part. -/
theorem split_ne_nil (text : String) : split sep text ≠ [] := by
  rw [split, ne_eq, List.map_eq_nil_iff]
  exact List.splitOn_ne_nil sep text.toList

/-- The parts of a text make it up. -/
theorem join_split (text : String) : join sep (split sep text) = text := by
  have hparts : (split sep text).map String.toList = text.toList.splitOn sep := by
    rw [split, List.map_map]
    exact List.map_id'' (fun _ => String.toList_ofList) _
  rw [join, hparts, List.intercalate_splitOn, String.ofList_toList]

/-- A text is known by its parts. -/
theorem split_injective {text text' : String} (h : split sep text = split sep text') :
    text = text' := by
  rw [← @join_split sep text, h, join_split]

/-- One part is a text on its own. -/
theorem join_singleton (part : String) : join sep [part] = part := by
  rw [join, List.map_singleton, List.intercalate_singleton, String.ofList_toList]

/-- A text without the separator is all there is. -/
theorem split_of_not_mem {text : String} (h : sep ∉ text.toList) : split sep text = [text] := by
  rw [split, List.splitOn_eq_singleton h, List.map_singleton, String.ofList_toList]

/-- No part has the separator in it. -/
theorem sep_not_mem_of_mem_split {text part : String} (h : part ∈ split sep text) :
    sep ∉ part.toList := by
  rw [split, List.mem_map] at h
  obtain ⟨chars, hchars, rfl⟩ := h
  rw [String.toList_ofList]
  exact not_mem_of_mem_splitOn _ hchars

/-- A part of a text has no parts of its own. -/
theorem split_of_mem_split {text part : String} (h : part ∈ split sep text) :
    split sep part = [part] :=
  split_of_not_mem (sep_not_mem_of_mem_split h)

/-- **When what is joined is read back.** -/
theorem split_join_iff {parts : List String} :
    split sep (join sep parts) = parts ↔ parts ≠ [] ∧ ∀ part ∈ parts, sep ∉ part.toList := by
  constructor
  · intro h
    rw [← h]
    exact ⟨split_ne_nil _, fun part hpart => sep_not_mem_of_mem_split hpart⟩
  · rintro ⟨hne, hsep⟩
    have hchars : ∀ chars ∈ parts.map String.toList, sep ∉ chars := by
      intro chars hmem
      obtain ⟨part, hpart, rfl⟩ := List.mem_map.mp hmem
      exact hsep part hpart
    have hne' : parts.map String.toList ≠ [] := fun hnil => hne (List.map_eq_nil_iff.mp hnil)
    rw [split, join, String.toList_ofList, List.splitOn_intercalate sep hchars hne', List.map_map]
    exact List.map_id'' (fun _ => String.ofList_toList) _

end Grizol.Library.Separated
