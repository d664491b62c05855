import QuerySurface.Layout.Check
import Mathlib.Data.List.Basic

/-!
# Accepted layouts

What it means that a layout passes its check, without the order of the checks and without
their messages; and that a layout which does not pass is refused with a message about the
configuration, never with another failure.
-/

namespace QuerySurface.Layout

/-! ## Checks that pass -/

/-- A check followed by another passes if both do. -/
theorem bind_eq_ok_iff {first second : Outcome Unit} :
    (first >>= fun _ => second) = .ok () ↔ first = .ok () ∧ second = .ok () := by
  cases first <;> simp [bind, Except.bind]

/-- A requirement passes if its condition holds. -/
theorem require_eq_ok_iff {condition : Bool} {message : String} :
    require condition message = .ok () ↔ condition = true := by
  cases condition <;> simp [require]

/-- A check of several things passes if it passes for each. -/
theorem requireAll_eq_ok_iff {α : Type} {check : α → Outcome Unit} {items : List α} :
    requireAll check items = .ok () ↔ ∀ item ∈ items, check item = .ok () := by
  induction items with
  | nil => simp [requireAll]
  | cons item rest ih => rw [requireAll, bind_eq_ok_iff, ih, List.forall_mem_cons]

/-- The pairs of a list have a property if its entries have it of those behind them. -/
theorem forall_mem_pairs_iff {α : Type} {holds : α → α → Prop} {items : List α} :
    (∀ pair ∈ pairs items, holds pair.1 pair.2) ↔ items.Pairwise holds := by
  induction items with
  | nil => simp [pairs]
  | cons item rest ih =>
    rw [pairs, List.forall_mem_append, List.forall_mem_map, ih, List.pairwise_cons]

/-- What stands in front is an identifier, and what stands behind is a fragment. -/
structure Decoration.WellFormed (decoration : Decoration) : Prop where
  /-- The text in front. -/
  front : ∀ text, decoration.front = some text → Text.isIdentifier text.toList = true
  /-- The text behind. -/
  back : ∀ text, decoration.back = some text → Text.isFragment text.toList = true

/-- The check of a decoration passes if the decoration is well-formed. -/
theorem checkDecoration_eq_ok_iff {family : String} {decoration : Decoration} :
    checkDecoration (family, decoration) = .ok () ↔ decoration.WellFormed := by
  obtain ⟨front, back⟩ := decoration
  have hw : Decoration.WellFormed ⟨front, back⟩ ↔
      (∀ text, front = some text → Text.isIdentifier text.toList = true) ∧
        ∀ text, back = some text → Text.isFragment text.toList = true :=
    ⟨fun h => ⟨h.front, h.back⟩, fun h => ⟨h.1, h.2⟩⟩
  rw [hw]
  cases front <;> cases back <;> simp [checkDecoration, bind_eq_ok_iff, require_eq_ok_iff]

/-- The check of a pair passes if the decorations differ. -/
theorem checkPair_eq_ok_iff {pair : (String × Decoration) × (String × Decoration)} :
    checkPair pair = .ok () ↔ pair.1.2 ≠ pair.2.2 := by
  rw [checkPair, require_eq_ok_iff]
  simp

/-! ## Layouts that pass -/

/-- What a layout has to be. -/
structure Accepted (layout : Layout) : Prop where
  /-- The parameter of projections has an identifier as its name. -/
  projectionParameter : Text.isIdentifier layout.parameters.projection.toList = true
  /-- The parameter of queries has an identifier as its name. -/
  queryParameter : Text.isIdentifier layout.parameters.query.toList = true
  /-- The two have different names. -/
  parameters : layout.parameters.projection ≠ layout.parameters.query
  /-- Decorations are well-formed. -/
  decorations : ∀ entry ∈ layout.decorations.named, entry.2.WellFormed
  /-- Members that narrow are decorated. -/
  onSubtype : layout.decorations.onSubtype.isEmpty = false
  /-- Families of nodes are decorated differently. -/
  nodeLevel : layout.decorations.nodeLevel.Pairwise (·.2 ≠ ·.2)
  /-- Families of fields are decorated differently. -/
  fieldLevel : layout.decorations.fieldLevel.Pairwise (·.2 ≠ ·.2)
  /-- The type of unmapped scalars is not blank. -/
  fallback : Text.isBlankText layout.scalars.fallback = false
  /-- The types of mapped scalars are not blank. -/
  scalars : ∀ entry ∈ layout.scalars.types, Text.isBlankText entry.2 = false

/-- A layout passes its check exactly if it is what it has to be. -/
theorem check_eq_ok_iff {layout : Layout} : layout.check = .ok () ↔ Accepted layout := by
  simp only [check, checkParameter, checkScalar, bind_eq_ok_iff, require_eq_ok_iff,
    requireAll_eq_ok_iff]
  have hd : (∀ entry ∈ layout.decorations.named, checkDecoration entry = .ok ()) ↔
      ∀ entry ∈ layout.decorations.named, entry.2.WellFormed :=
    forall₂_congr fun entry _ => checkDecoration_eq_ok_iff
  have hp : ∀ entries : List (String × Decoration),
      (∀ pair ∈ pairs entries, checkPair pair = .ok ()) ↔ entries.Pairwise (·.2 ≠ ·.2) := by
    intro entries
    rw [← forall_mem_pairs_iff]
    exact forall₂_congr fun pair _ => checkPair_eq_ok_iff
  rw [hd, hp, hp]
  constructor
  · rintro ⟨h₁, h₂, h₃, h₄, h₅, h₆, h₇, h₈, h₉⟩
    exact ⟨h₁, h₂, by simpa using h₃, h₄, by simpa using h₅, h₆, h₇, by simpa using h₈,
      fun entry he => by simpa using h₉ entry he⟩
  · intro h
    refine ⟨h.projectionParameter, h.queryParameter, ?_, h.decorations, ?_, h.nodeLevel,
      h.fieldLevel, ?_, ?_⟩
    · simpa using h.parameters
    · simpa using h.onSubtype
    · simpa using h.fallback
    · intro entry he
      simpa using h.scalars entry he

/-! ## Layouts that are refused -/

/-- A check fails with messages about the configuration only. -/
def Refuses (outcome : Outcome Unit) : Prop :=
  ∀ failure, outcome = .error failure → ∃ message, failure = .configuration message

/-- What passes does not fail at all. -/
theorem refuses_ok : Refuses (.ok ()) := by
  intro failure h
  cases h

/-- A requirement fails with its message. -/
theorem refuses_require (condition : Bool) (message : String) :
    Refuses (require condition message) := by
  intro failure h
  cases condition with
  | true => cases h
  | false => exact ⟨message, (Except.error.inj h).symm⟩

/-- Of two checks the first that fails gives the message. -/
theorem Refuses.bind {first second : Outcome Unit} (hf : Refuses first) (hs : Refuses second) :
    Refuses (first >>= fun _ => second) := by
  intro failure h
  cases first with
  | error found => exact hf failure h
  | ok _ => exact hs failure h

/-- Of several checks the first that fails gives the message. -/
theorem refuses_requireAll {α : Type} {check : α → Outcome Unit} (items : List α)
    (h : ∀ item, Refuses (check item)) : Refuses (requireAll check items) := by
  induction items with
  | nil => exact refuses_ok
  | cons item rest ih => exact (h item).bind ih

/-- The check of a decoration fails with a message. -/
theorem refuses_checkDecoration (entry : String × Decoration) :
    Refuses (checkDecoration entry) := by
  obtain ⟨family, front, back⟩ := entry
  cases front with
  | none =>
    cases back with
    | none => exact refuses_ok
    | some back => exact refuses_ok.bind (refuses_require _ _)
  | some front =>
    cases back with
    | none => exact (refuses_require _ _).bind refuses_ok
    | some back => exact (refuses_require _ _).bind (refuses_require _ _)

/-- A layout that does not pass is refused with a message. -/
theorem refuses_check (layout : Layout) : Refuses layout.check := by
  have hpairs : ∀ entries : List (String × Decoration),
      Refuses (requireAll checkPair (pairs entries)) := fun entries =>
    refuses_requireAll _ fun pair => refuses_require _ _
  exact (refuses_require _ _).bind <| (refuses_require _ _).bind <| (refuses_require _ _).bind <|
    (refuses_requireAll _ refuses_checkDecoration).bind <| (refuses_require _ _).bind <|
    (hpairs _).bind <| (hpairs _).bind <| (refuses_require _ _).bind <|
    refuses_requireAll _ fun entry => refuses_require _ _

end QuerySurface.Layout
