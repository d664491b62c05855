import QuerySurface.Proofs.Layout.Accepted
import QuerySurface.Layout.Naming

/-!
# Decorated names

When two decorated names are the same name. Under one decoration they are if the names that
were decorated look the same, which a prefix may cause by capitalising them. Under two
decorations one of the names, up to its postfix, goes on where the other ends, and the
postfixes make up for it.
-/

namespace QuerySurface.Layout.Decoration

/-- What is decorated, as it stands in the decorated name. -/
def shown (decoration : Decoration) (stem : String) : String :=
  if decoration.front.isSome then Text.capitalize stem else stem

/-- A decorated name up to the postfix. -/
def body (decoration : Decoration) (stem : String) : String :=
  decoration.front.getD "" ++ decoration.shown stem

/-- The postfix. -/
def tail (decoration : Decoration) : String :=
  decoration.back.getD ""

/-- One decorated name goes on behind the body of another, and its own postfix is what this leaves
of the postfix of the other. -/
def Overlaps (left right : Decoration) (stem other : String) : Prop :=
  ∃ more, left.body stem = right.body other ++ more ∧ right.tail = more ++ left.tail

/-- A decorated name is a body and a postfix. -/
theorem apply_eq (decoration : Decoration) (stem : String) :
    decoration.apply stem = decoration.body stem ++ decoration.tail := by
  obtain ⟨front, back⟩ := decoration
  cases front <;> simp [apply, body, shown, tail]

/-- Two decorated names are the same if one overlaps the other. -/
theorem apply_eq_apply_iff (left right : Decoration) (stem other : String) :
    left.apply stem = right.apply other ↔
      left.Overlaps right stem other ∨ right.Overlaps left other stem := by
  rw [apply_eq, apply_eq]
  constructor
  · intro h
    have hl := congrArg String.toList h
    rw [String.toList_append, String.toList_append, List.append_eq_append_iff] at hl
    rcases hl with ⟨more, hb, ht⟩ | ⟨more, hb, ht⟩
    · exact .inr ⟨String.ofList more, String.toList_inj.mp (by simpa using hb),
        String.toList_inj.mp (by simpa using ht)⟩
    · exact .inl ⟨String.ofList more, String.toList_inj.mp (by simpa using hb),
        String.toList_inj.mp (by simpa using ht)⟩
  · rintro (⟨more, hb, ht⟩ | ⟨more, hb, ht⟩)
    · rw [hb, ht, String.append_assoc]
    · rw [hb, ht, String.append_assoc]

/-- Under one decoration two names are the same if they show the same. -/
theorem apply_eq_apply_self_iff (decoration : Decoration) (stem other : String) :
    decoration.apply stem = decoration.apply other ↔
      decoration.shown stem = decoration.shown other := by
  rw [apply_eq, apply_eq, String.append_left_inj, body, body, String.append_right_inj]

/-- A well-formed postfix is not empty. -/
theorem WellFormed.back_ne {decoration : Decoration} (h : decoration.WellFormed) :
    decoration.back ≠ some "" := by
  intro he
  have hf := h.back "" he
  simp [Text.isFragment] at hf

/-- Well-formed decorations without prefixes that make the same of one name are the same. -/
theorem eq_of_apply_eq_apply {left right : Decoration} (hl : left.WellFormed)
    (hr : right.WellFormed) (hfl : left.front = none) (hfr : right.front = none) {stem : String}
    (h : left.apply stem = right.apply stem) : left = right := by
  obtain ⟨front, back⟩ := left
  obtain ⟨front', back'⟩ := right
  obtain rfl : front = none := hfl
  obtain rfl : front' = none := hfr
  have ht : back.getD "" = back'.getD "" := by simpa [apply] using h
  have hb := hl.back_ne
  have hb' := hr.back_ne
  cases back <;> cases back' <;> simp_all

end QuerySurface.Layout.Decoration
