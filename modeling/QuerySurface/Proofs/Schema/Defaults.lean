import QuerySurface.Proofs.Json.Records
import QuerySurface.Schema.Loading

/-!
# Defaults of documents

Of all that a document holds, only the defaults of arguments are values of any kind. In a
document that was read from a text each of them is a value that a reader delivers, and none of
them is the absent value, which stands for no default.
-/

namespace QuerySurface.Schema

open Json (Value)
open Json.Reader

/-! ## Defaults left open -/

/-- An argument with the values of doubles in its default left open. -/
def ArgumentDocument.blurred (argument : ArgumentDocument) : ArgumentDocument :=
  { argument with default := argument.default.map Value.blurred }

/-- A field with the values of doubles in its defaults left open. -/
def FieldDocument.blurred (field : FieldDocument) : FieldDocument :=
  { field with arguments := field.arguments.map ArgumentDocument.blurred }

/-- A type with the values of doubles in its defaults left open. -/
def TypeDocument.blurred (type : TypeDocument) : TypeDocument :=
  { type with fields := type.fields.map FieldDocument.blurred }

/-- A document with the values of doubles in its defaults left open. -/
def Document.blurred (document : Document) : Document :=
  { document with types := document.types.map TypeDocument.blurred }

/-! ## What a document that was read has -/

/-- An argument whose default, if it has one, is a value that a reader delivers. An explicit
absent value is no default. -/
def ArgumentDocument.Fits (room : Nat) (argument : ArgumentDocument) : Prop :=
  ∀ value ∈ argument.default, value ≠ .null ∧ value.Fits room

/-- A field whose arguments have such defaults. -/
def FieldDocument.Fits (room : Nat) (field : FieldDocument) : Prop :=
  ∀ argument ∈ field.arguments, argument.Fits room

/-- A type whose fields have such arguments. -/
def TypeDocument.Fits (room : Nat) (type : TypeDocument) : Prop :=
  ∀ field ∈ type.fields, field.Fits room

/-- A document whose types have such fields. -/
def Document.Fits (room : Nat) (document : Document) : Prop :=
  ∀ type ∈ document.types, type.Fits room

/-- A default that is read is not the absent value. -/
theorem optional_value_eq_some {room : Nat} {tree : Json.Tree} {found : Value}
    (h : optional value room tree = .ok (some found)) : found ≠ .null ∧ found.Fits room := by
  have hinner : tree ≠ .null ∧ value room tree = .ok found := by
    cases tree with
    | null => cases h
    | _ =>
      obtain ⟨inside, hread, hsame⟩ := exists_of_map h
      cases hsame
      exact ⟨nofun, hread⟩
  refine ⟨?_, fits_of_value tree hinner.2⟩
  rintro rfl
  exact hinner.1 (eq_null_of_value hinner.2)

/-- The default of an argument that was read fits into the room inside it. -/
theorem ArgumentDocument.fits_of_reader {room : Nat} {tree : Json.Tree}
    {argument : ArgumentDocument} (h : ArgumentDocument.reader (room + 1) tree = .ok argument) :
    argument.Fits room := by
  refine record_keeps (show ArgumentDocument.Fits room _ by simp [ArgumentDocument.Fits]) ?_ h
  intro field hmem tree before after hstart hupdated
  simp only [List.mem_cons, List.not_mem_nil, or_false] at hmem
  obtain rfl | rfl | rfl | rfl := hmem
  · obtain ⟨_, -, rfl⟩ := exists_of_map hupdated
    exact hstart
  · obtain ⟨_, -, rfl⟩ := exists_of_map hupdated
    exact hstart
  · obtain ⟨default, hread, rfl⟩ := exists_of_map hupdated
    intro value hfound
    cases hfound
    exact optional_value_eq_some hread
  · obtain ⟨_, -, rfl⟩ := exists_of_map hupdated
    exact hstart

/-- The defaults of a field that was read fit into the room inside its arguments. -/
theorem FieldDocument.fits_of_reader {room : Nat} {tree : Json.Tree} {field : FieldDocument}
    (h : FieldDocument.reader (room + 3) tree = .ok field) : field.Fits room := by
  refine record_keeps (show FieldDocument.Fits room _ by simp [FieldDocument.Fits]) ?_ h
  intro field hmem tree before after hstart hupdated
  simp only [List.mem_cons, List.not_mem_nil, or_false] at hmem
  obtain rfl | rfl | rfl | rfl | rfl := hmem
  case inr.inr.inr.inr =>
    obtain ⟨arguments, hread, rfl⟩ := exists_of_map hupdated
    intro argument hfound
    obtain ⟨tree, hread⟩ := list_keeps hread argument hfound
    exact ArgumentDocument.fits_of_reader hread
  all_goals
    obtain ⟨_, -, rfl⟩ := exists_of_map hupdated
    exact hstart

/-- The defaults of a type that was read fit into the room inside its fields. -/
theorem TypeDocument.fits_of_reader {room : Nat} {tree : Json.Tree} {type : TypeDocument}
    (h : TypeDocument.reader (room + 5) tree = .ok type) : type.Fits room := by
  refine record_keeps (show TypeDocument.Fits room _ by simp [TypeDocument.Fits]) ?_ h
  intro field hmem tree before after hstart hupdated
  simp only [List.mem_cons, List.not_mem_nil, or_false] at hmem
  obtain rfl | rfl | rfl | rfl | rfl | rfl | rfl := hmem
  case inr.inr.inr.inr.inr.inr =>
    obtain ⟨fields, hread, rfl⟩ := exists_of_map hupdated
    intro field hfound
    obtain ⟨tree, hread⟩ := list_keeps hread field hfound
    exact FieldDocument.fits_of_reader hread
  all_goals
    obtain ⟨_, -, rfl⟩ := exists_of_map hupdated
    exact hstart

/-- The defaults of a document that was read fit into the room inside its types. -/
theorem Document.fits_of_reader {room : Nat} {tree : Json.Tree} {document : Document}
    (h : Document.reader (room + 7) tree = .ok document) : document.Fits room := by
  refine record_keeps (show Document.Fits room _ by simp [Document.Fits]) ?_ h
  intro field hmem tree before after hstart hupdated
  simp only [List.mem_cons, List.not_mem_nil, or_false] at hmem
  obtain rfl | rfl := hmem
  · obtain ⟨_, -, rfl⟩ := exists_of_map hupdated
    exact hstart
  · obtain ⟨types, hread, rfl⟩ := exists_of_map hupdated
    intro type hfound
    obtain ⟨tree, hread⟩ := list_keeps hread type hfound
    exact TypeDocument.fits_of_reader hread

end QuerySurface.Schema
