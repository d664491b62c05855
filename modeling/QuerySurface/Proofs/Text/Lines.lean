import QuerySurface.Text.Blank
import Mathlib.Data.List.Basic

/-!
# Parts and lines of joined texts

Splitting a text undoes joining its parts, and reading the lines of a text undoes ending each of
them with a line feed, as long as the parts do not hold what they are joined with.
-/

namespace QuerySurface.Text

/-! ## Parts -/

/-- A text has at least one part. -/
theorem splitOn_ne_nil (separator : Char) (text : List Char) : splitOn separator text ≠ [] := by
  cases text with
  | nil => simp [splitOn]
  | cons c rest =>
    rw [splitOn]
    split
    · simp
    · split <;> simp

/-- A text without the separator is its only part. -/
theorem splitOn_of_not_mem {separator : Char} {text : List Char} (h : separator ∉ text) :
    splitOn separator text = [text] := by
  induction text with
  | nil => rfl
  | cons c rest ih =>
    rw [List.mem_cons, not_or] at h
    rw [splitOn, if_neg (Ne.symm h.1), ih h.2]

/-- A separator separates what the texts on its sides are split into. -/
theorem splitOn_append_cons (separator : Char) (front back : List Char) :
    splitOn separator (front ++ separator :: back) =
      splitOn separator front ++ splitOn separator back := by
  induction front with
  | nil => simp [splitOn]
  | cons c rest ih =>
    rw [List.cons_append, splitOn, splitOn, ih]
    split
    · rfl
    · obtain ⟨part, parts, hp⟩ := List.exists_cons_of_ne_nil (splitOn_ne_nil separator rest)
      rw [hp]
      rfl

/-- Texts that are ended by the separator are the parts of what they make up, before an empty
last part. -/
theorem splitOn_flatMap_concat {separator : Char} {parts : List (List Char)}
    (h : ∀ part ∈ parts, separator ∉ part) :
    splitOn separator (parts.flatMap (· ++ [separator])) = parts ++ [[]] := by
  induction parts with
  | nil => rfl
  | cons part rest ih =>
    obtain ⟨hp, hr⟩ := List.forall_mem_cons.mp h
    rw [List.flatMap_cons, List.append_assoc, List.singleton_append, splitOn_append_cons,
      splitOn_of_not_mem hp, ih hr]
    rfl

/-! ## Lines -/

/-- A line without a carriage return has none in front of its line feed. -/
theorem endedLine_of_not_mem {line : List Char} (h : '\r' ∉ line) : endedLine line = line := by
  have hr : '\r' ∉ line.reverse := by rwa [List.mem_reverse]
  unfold endedLine dropLast?
  split
  case h_1 last rest he =>
    rw [he, List.mem_cons, not_or] at hr
    rw [if_neg (Ne.symm hr.1)]
    rfl
  case h_2 => rfl

/-- A line ending takes characters away and adds none. -/
theorem mem_of_mem_endedLine {line : List Char} {c : Char} (h : c ∈ endedLine line) :
    c ∈ line := by
  unfold endedLine dropLast? at h
  split at h
  case h_1 last rest he =>
    have hline : line = rest.reverse ++ [last] := by
      rw [← List.reverse_reverse line, he, List.reverse_cons]
    split at h
    · exact hline ▸ List.mem_append_left _ h
    · exact h
  case h_2 => exact h

/-- The lines of a text hold no line feed. -/
theorem not_mem_of_mem_lines {text line : List Char} (h : line ∈ lines text) : '\n' ∉ line := by
  rw [lines, List.mem_append] at h
  rcases h with hended | hlast
  · obtain ⟨part, hpart, rfl⟩ := List.mem_map.mp hended
    have hfeed : '\n' ∉ part := not_mem_of_mem_splitOn (List.dropLast_subset _ hpart)
    exact fun hm => hfeed (mem_of_mem_endedLine hm)
  · split at hlast
    · cases hlast
    · rw [List.mem_singleton.mp hlast]
      have hmem := List.getLast?_eq_some_getLast (splitOn_ne_nil '\n' text)
      rw [hmem]
      exact not_mem_of_mem_splitOn (List.getLast_mem _)

/-- Texts that are ended by a line feed are the lines of what they make up. -/
theorem lines_flatMap_concat {texts : List (List Char)}
    (h : ∀ text ∈ texts, '\n' ∉ text ∧ '\r' ∉ text) :
    lines (texts.flatMap (· ++ ['\n'])) = texts := by
  have hsplit := splitOn_flatMap_concat fun text ht => (h text ht).1
  have hended : texts.map endedLine = texts :=
    (List.map_congr_left fun text ht => endedLine_of_not_mem (h text ht).2).trans (List.map_id _)
  rw [lines, hsplit]
  simp [hended]

end QuerySurface.Text
