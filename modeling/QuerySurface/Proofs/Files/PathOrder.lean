import QuerySurface.Files.Path
import QuerySurface.Proofs.Text.Lines
import Mathlib.Data.String.Basic

/-!
# Paths in order

Paths are compared name by name, which is the lexicographic order of their names and so a total one.
Paths whose names differ therefore have one order, whatever the order is in which they are given.
Which extension a path has is read off its last name: what stands behind the last point, if anything
stands in front of it.
-/

namespace QuerySurface.Files

/-! ## Order -/

/-- Paths are compared by the lexicographic order of their names. -/
theorem namesBefore_eq_true_iff {front back : List String} :
    namesBefore front back = true ↔ ¬back < front := by
  induction front generalizing back with
  | nil => simp [namesBefore]
  | cons name rest ih =>
    cases back with
    | nil => simp [namesBefore]
    | cons other others =>
      rw [namesBefore, List.cons_lt_cons_iff]
      by_cases he : name = other
      · simp [he, ih]
      · simp only [he, if_false, decide_eq_true_eq, Ne.symm he, false_and, or_false, not_lt]
        exact ⟨le_of_lt, fun hle => lt_of_le_of_ne hle he⟩

/-- Putting paths in order takes none away and adds none. -/
theorem sorted_perm (paths : List String) : (sorted paths).Perm paths :=
  List.mergeSort_perm paths _

/-- Paths that were put in order do not come before those in front of them. -/
theorem pairwise_sorted (paths : List String) :
    (sorted paths).Pairwise fun path other => ¬names other < names path := by
  have htrans (a b c : String) (hab : namesBefore (names a) (names b) = true)
      (hbc : namesBefore (names b) (names c) = true) :
      namesBefore (names a) (names c) = true := by
    rw [namesBefore_eq_true_iff, not_lt] at hab hbc ⊢
    exact hab.trans hbc
  have htotal (a b : String) :
      (namesBefore (names a) (names b) || namesBefore (names b) (names a)) = true := by
    rw [Bool.or_eq_true, namesBefore_eq_true_iff, namesBefore_eq_true_iff, not_lt, not_lt]
    exact le_total _ _
  have hsorted := List.pairwise_mergeSort htrans htotal paths
  exact hsorted.imp fun h => namesBefore_eq_true_iff.mp h

/-- Every path comes before those behind it. -/
def Ascending (paths : List String) : Prop :=
  paths.Pairwise fun path other => names path < names other

/-- Paths that were put in order come one before the other if no two of them have the same
names. -/
theorem ascending_sorted {paths : List String} (h : (paths.map names).Nodup) :
    Ascending (sorted paths) := by
  have hnodup : ((sorted paths).map names).Nodup :=
    ((sorted_perm paths).map names).nodup_iff.mpr h
  have hne : (sorted paths).Pairwise fun path other => names path ≠ names other :=
    List.pairwise_map.mp hnodup
  exact (pairwise_sorted paths).imp₂ (fun _ _ hle hne => lt_of_le_of_ne (not_lt.mp hle) hne) hne

/-- No path is twice among paths that come one before the other. -/
theorem Ascending.nodup {paths : List String} (h : Ascending paths) : paths.Nodup := by
  refine List.Pairwise.imp ?_ h
  rintro path _ hlt rfl
  exact lt_irrefl _ hlt

/-- The same paths have one order. -/
theorem Ascending.eq_of_mem_iff {paths others : List String} (hp : Ascending paths)
    (ho : Ascending others) (hm : ∀ path, path ∈ paths ↔ path ∈ others) : paths = others :=
  ((List.perm_ext_iff_of_nodup hp.nodup ho.nodup).mpr hm).eq_of_pairwise
    (fun _ _ _ _ hlt hgt => absurd hlt (lt_asymm hgt)) hp ho

/-! ## Extensions -/

/-- The last name of a path ends with a point and an extension, with something in front of the
point and no other point behind it. -/
def HasExtension (path extension : String) : Prop :=
  ∃ stem, (names path).getLast? = some (stem ++ "." ++ extension) ∧ stem ≠ "" ∧
    stem ++ "." ++ extension ≠ ".." ∧ '.' ∉ extension.toList

/-- A text that holds a separator is what stands in front of its last one and what stands
behind. -/
theorem exists_last_separator {separator : Char} {text : List Char} (h : separator ∈ text) :
    ∃ front back, text = front ++ separator :: back ∧ separator ∉ back := by
  obtain ⟨back, front, hr, hb⟩ := List.eq_append_cons_of_mem (List.mem_reverse.mpr h)
  refine ⟨front.reverse, back.reverse, ?_, by simpa using hb⟩
  rw [← List.reverse_reverse text, hr]
  simp

/-- A text is a single empty part only if it is empty. -/
theorem splitOn_eq_singleton_nil_iff {separator : Char} {text : List Char} :
    Text.splitOn separator text = [[]] ↔ text = [] := by
  constructor
  · intro h
    by_cases hm : separator ∈ text
    · obtain ⟨front, back, rfl, hb⟩ := exists_last_separator hm
      rw [Text.splitOn_append_cons, Text.splitOn_of_not_mem hb, List.append_eq_singleton_iff] at h
      rcases h with ⟨hnil, -⟩ | ⟨-, hnil⟩
      · exact absurd hnil (Text.splitOn_ne_nil separator front)
      · cases hnil
    · rw [Text.splitOn_of_not_mem hm] at h
      exact (List.cons.inj h).1
  · rintro rfl
    rfl

/-- What stands behind the last point of a last name is the extension, unless nothing stands in
front of it. -/
theorem extension?_of_getLast? {path stem extension : String}
    (hl : (names path).getLast? = some (stem ++ "." ++ extension))
    (hb : stem ++ "." ++ extension ≠ "..") (he : '.' ∉ extension.toList) :
    extension? path = if stem = "" then none else some extension := by
  have hsplit : Text.splitOn '.' (stem ++ "." ++ extension).toList =
      Text.splitOn '.' stem.toList ++ [extension.toList] := by
    have htext : (stem ++ "." ++ extension).toList = stem.toList ++ '.' :: extension.toList := by
      simp
    rw [htext, Text.splitOn_append_cons, Text.splitOn_of_not_mem he]
  have hstem : stem.toList = [] ↔ stem = "" := by simp
  obtain ⟨last, rest, hr⟩ := List.exists_cons_of_ne_nil
    (List.reverse_ne_nil_iff.mpr (Text.splitOn_ne_nil '.' stem.toList))
  have hback : (last :: rest).reverse = Text.splitOn '.' stem.toList := by
    rw [← hr, List.reverse_reverse]
  simp only [extension?, hl, if_neg hb, hsplit, List.reverse_concat, hr, hback, beq_iff_eq,
    splitOn_eq_singleton_nil_iff, hstem, String.ofList_toList]

/-- The extension of a path is the one that its last name has. -/
theorem extension?_eq_some_iff {path extension : String} :
    extension? path = some extension ↔ HasExtension path extension := by
  constructor
  · intro h
    cases hl : (names path).getLast? with
    | none => simp [extension?, hl] at h
    | some name =>
      by_cases hb : name = ".."
      · simp [extension?, hl, hb] at h
      · by_cases hm : '.' ∈ name.toList
        · obtain ⟨front, back, hname, hback⟩ := exists_last_separator hm
          have hjoined : name = String.ofList front ++ "." ++ String.ofList back := by
            rw [← String.toList_inj, hname]
            simp
          rw [hjoined] at hl hb
          rw [extension?_of_getLast? hl hb (by simpa using hback),
            Option.ite_none_left_eq_some] at h
          obtain ⟨hstem, he⟩ := h
          obtain rfl := Option.some.inj he
          exact ⟨_, hl, hstem, hb, by simpa using hback⟩
        · simp [extension?, hl, hb, Text.splitOn_of_not_mem hm] at h
  · rintro ⟨stem, hl, hstem, hb, he⟩
    rw [extension?_of_getLast? hl hb he, if_neg hstem]

end QuerySurface.Files
