import QuerySurface.Proofs.Schema.Outcome
import QuerySurface.Schema.Loading

/-!
# The first malformed notation

The types that documents refer to stand in them as written, in one order: document by document and
type by type, each field with its own type in front of those of its arguments. The declarations of
a type end where one of them cannot be read, and those of the other types go on all the same. Of all
that may be wrong with a schema, loading reports the first of these notations and nothing else.
-/

namespace QuerySurface.Schema

/-- A type as it stands in a document. -/
structure WrittenType where
  /-- Name of the declared type that it stands in. -/
  node : String
  /-- The field or argument that it is the type of. -/
  owner : String
  /-- Its notation. -/
  text : String
  deriving DecidableEq, Repr

/-- The failure of a written type that cannot be read. -/
def WrittenType.failure (written : WrittenType) : Failure :=
  .schema written.node (written.owner ++ " has malformed type '" ++ written.text ++ "'")

/-- The failure of the first written type that cannot be read. -/
def firstFailure (types : List WrittenType) : Option Failure :=
  types.findSome? fun written =>
    if TypeRef.parse written.text = none then some written.failure else none

/-- The written type of an argument. -/
def ArgumentDocument.writtenType (node field : String) (argument : ArgumentDocument) :
    WrittenType :=
  ⟨node, argumentPath field argument.name, argument.typeText⟩

/-- The written types of a field: its own, then those of its arguments. -/
def FieldDocument.writtenTypes (node : String) (field : FieldDocument) : List WrittenType :=
  ⟨node, field.name, field.typeText⟩ :: field.arguments.map (·.writtenType node field.name)

/-- The written types of a type, field by field. -/
def TypeDocument.writtenTypes (type : TypeDocument) : List WrittenType :=
  type.fields.flatMap (·.writtenTypes type.name)

/-- The written types of documents, type by type. -/
def writtenTypes (documents : List Document) : List WrittenType :=
  (documents.flatMap Document.types).flatMap TypeDocument.writtenTypes

/-- The failure of an outcome. -/
def failureOf {α : Type} : Outcome α → Option Failure
  | .ok _ => none
  | .error failure => some failure

/-! ## One step after another -/

/-- Steps fail as the first one does, or else as the second. -/
theorem failureOf_bind {α β : Type} (first : Outcome α) (second : α → Outcome β)
    (other : Option Failure) (h : ∀ value, failureOf (second value) = other) :
    failureOf (first >>= second) = (failureOf first).or other := by
  cases first with
  | ok value => exact h value
  | error failure => rfl

/-- The first failure of two lists is that of the first list, or else that of the second. -/
theorem firstFailure_append (front back : List WrittenType) :
    firstFailure (front ++ back) = (firstFailure front).or (firstFailure back) :=
  List.findSome?_append

/-- The first failure is that of the first notation, or else that of the others. -/
theorem firstFailure_cons (written : WrittenType) (rest : List WrittenType) :
    firstFailure (written :: rest) = (firstFailure [written]).or (firstFailure rest) :=
  firstFailure_append [written] rest

/-- A written type fails to be read exactly as it does in a list. -/
theorem failureOf_readType (node owner text : String) :
    failureOf (readType node owner text) = firstFailure [⟨node, owner, text⟩] := by
  rw [readType, firstFailure, List.findSome?_singleton]
  cases TypeRef.parse text <;> rfl

/-! ## Fields and types -/

/-- Arguments fail at the first of their types that cannot be read. -/
theorem failureOf_argumentSteps (node field : String) (arguments : List ArgumentDocument) :
    failureOf (argumentSteps node field arguments) =
      firstFailure (arguments.map (·.writtenType node field)) := by
  induction arguments with
  | nil => rfl
  | cons argument rest ih =>
    have hstep : failureOf (argument.step node field) =
        firstFailure [argument.writtenType node field] := by
      rw [ArgumentDocument.step, failureOf_bind _ _ none fun _ => rfl, Option.or_none]
      exact failureOf_readType ..
    rw [List.map_cons, firstFailure_cons, argumentSteps, ← hstep, ← ih]
    refine failureOf_bind _ _ _ fun step => ?_
    rw [failureOf_bind _ _ none fun _ => rfl, Option.or_none]

/-- A field fails at its own type before it fails at those of its arguments. -/
theorem failureOf_fieldStep (names : Directives) (node : String) (field : FieldDocument) :
    failureOf (field.step names node) = firstFailure (field.writtenTypes node) := by
  rw [FieldDocument.writtenTypes, firstFailure_cons, ← failureOf_readType,
    ← failureOf_argumentSteps, FieldDocument.step]
  refine failureOf_bind _ _ _ fun type => ?_
  rw [failureOf_bind _ _ none fun _ => rfl, Option.or_none]

/-- Fields fail at the first of their types that cannot be read. -/
theorem failure_fieldSteps (names : Directives) (node : String) (fields : List FieldDocument) :
    (fieldSteps names node fields).failure =
      firstFailure (fields.flatMap (·.writtenTypes node)) := by
  induction fields with
  | nil => rfl
  | cons field rest ih =>
    rw [List.flatMap_cons, firstFailure_append, ← failureOf_fieldStep names, ← ih, fieldSteps]
    cases field.step names node <;> rfl

/-- The first malformed notation is the first written type that cannot be read. -/
theorem firstMalformed_eq (names : Directives) (documents : List Document) :
    firstMalformed names documents = firstFailure (writtenTypes documents) := by
  rw [firstMalformed, writtenTypes]
  induction documents.flatMap Document.types with
  | nil => rfl
  | cons type rest ih =>
    rw [List.findSome?_cons, List.flatMap_cons, firstFailure_append, ih,
      TypeDocument.writtenTypes, ← failure_fieldSteps names, TypeDocument.replay]
    cases (fieldSteps names type.name type.fields).failure <;> rfl

/-! ## What loading reports -/

/-- The first failure is that of a written type which cannot be read, behind others that can. -/
theorem firstFailure_eq_some_iff {types : List WrittenType} {failure : Failure} :
    firstFailure types = some failure ↔
      ∃ front written back, types = front ++ written :: back ∧
        (∀ earlier ∈ front, TypeRef.parse earlier.text ≠ none) ∧
        TypeRef.parse written.text = none ∧ failure = written.failure := by
  rw [firstFailure, List.findSome?_eq_some_iff]
  refine exists_congr fun front => exists_congr fun written => exists_congr fun back =>
    and_congr_right fun _ => ?_
  constructor
  · rintro ⟨hw, hf⟩
    rw [Option.ite_none_right_eq_some] at hw
    exact ⟨fun earlier he hn => by simpa [hn] using hf earlier he, hw.1,
      (Option.some.inj hw.2).symm⟩
  · rintro ⟨hf, hw, rfl⟩
    exact ⟨if_pos hw, fun earlier he => if_neg (hf earlier he)⟩

/-- Nothing fails exactly if every written type can be read. -/
theorem firstFailure_eq_none_iff {types : List WrittenType} :
    firstFailure types = none ↔ ∀ written ∈ types, TypeRef.parse written.text ≠ none := by
  simp [firstFailure, List.findSome?_eq_none_iff]

/-- A malformed notation is a failure of the schema. -/
theorem failure_of_firstMalformed {names : Directives} {documents : List Document}
    {failure : Failure} (h : firstMalformed names documents = some failure) :
    ∃ node message, failure = .schema node message := by
  rw [firstMalformed_eq] at h
  obtain ⟨front, written, back, -, -, -, rfl⟩ := firstFailure_eq_some_iff.mp h
  exact ⟨_, _, rfl⟩

/-- Building reports no malformed notation. -/
theorem build_ne_schema (id : GraphId) (strictness : Strictness) (steps : List SchemaStep)
    (node message : String) : Graph.build id strictness steps ≠ .error (.schema node message) := by
  rw [build_eq]
  split
  · intro h
    cases h
  · intro h
    cases h

/-- A malformed notation is reported in front of everything else. Loading fails with a failure of
the schema exactly if some written type cannot be read, wherever it stands and whatever else is
wrong; the failure is that of the first such type, in the order of the documents, and names the
type and the field or argument it is written for. Without one, the outcome is that of building. -/
theorem ofDocuments_malformed (id : GraphId) (settings : LoadSettings)
    (documents : List Document) :
    ((∃ node message, Graph.ofDocuments id settings documents = .error (.schema node message)) ↔
        ∃ written ∈ writtenTypes documents, TypeRef.parse written.text = none) ∧
      (∀ node message,
        Graph.ofDocuments id settings documents = .error (.schema node message) ↔
          ∃ front written back, writtenTypes documents = front ++ written :: back ∧
            (∀ earlier ∈ front, TypeRef.parse earlier.text ≠ none) ∧
            TypeRef.parse written.text = none ∧ node = written.node ∧
            message = written.owner ++ " has malformed type '" ++ written.text ++ "'") ∧
      ((∀ written ∈ writtenTypes documents, TypeRef.parse written.text ≠ none) →
        Graph.ofDocuments id settings documents =
          Graph.build id settings.strictness (documentSteps settings.directives documents)) := by
  have hsome (node message : String) :
      Graph.ofDocuments id settings documents = .error (.schema node message) ↔
        firstFailure (writtenTypes documents) = some (.schema node message) := by
    rw [Graph.ofDocuments, firstMalformed_eq]
    cases firstFailure (writtenTypes documents) with
    | none => simp [build_ne_schema]
    | some failure => simp
  refine ⟨⟨?_, ?_⟩, ?_, ?_⟩
  · rintro ⟨node, message, h⟩
    obtain ⟨front, written, back, he, -, hw, -⟩ :=
      firstFailure_eq_some_iff.mp ((hsome node message).mp h)
    exact ⟨written, he ▸ List.mem_append_right front List.mem_cons_self, hw⟩
  · rintro ⟨written, hm, hw⟩
    obtain ⟨failure, hf⟩ := Option.ne_none_iff_exists'.mp fun hn =>
      firstFailure_eq_none_iff.mp hn written hm hw
    obtain ⟨front, first, back, -, -, -, rfl⟩ := firstFailure_eq_some_iff.mp hf
    exact ⟨_, _, (hsome _ _).mpr hf⟩
  · intro node message
    rw [hsome, firstFailure_eq_some_iff]
    simp only [WrittenType.failure, Failure.schema.injEq]
  · intro h
    rw [Graph.ofDocuments, firstMalformed_eq, firstFailure_eq_none_iff.mpr h]

/-- Documents whose second type is declared again without its malformed argument, with an interface
that does not exist and another malformed notation behind it. -/
def malformedDocuments : List Document :=
  [ { roots := ⟨none, none, none⟩
      types :=
        [ ⟨"Cat", .object, [], ["Missing"], [], [], [⟨"name", "String", [], [], []⟩]⟩,
          ⟨"Dog", .object, [], [], [], [],
            [⟨"age", " Int ! ", [], [], [⟨"unit", "[Unit", none, []⟩]⟩,
              ⟨"owner", "Owner?", [], [], []⟩]⟩ ] },
    { roots := ⟨some "Dog", none, none⟩
      types := [⟨"Dog", .object, [], [], [], [], [⟨"age", "Int", [], [], []⟩]⟩] } ]

/-- The argument is what is reported of them; the second of them alone is built. -/
theorem ofDocuments_malformed_unit :
    Graph.ofDocuments ⟨0⟩ .usual malformedDocuments =
        .error (.schema "Dog" "age(unit) has malformed type '[Unit'") ∧
      Graph.ofDocuments ⟨0⟩ .usual (malformedDocuments.drop 1) =
        Graph.build ⟨0⟩ .lenient (documentSteps .usual (malformedDocuments.drop 1)) := by
  constructor
  · refine ((ofDocuments_malformed ⟨0⟩ .usual malformedDocuments).2.1 _ _).mpr ?_
    refine ⟨[⟨"Cat", "name", "String"⟩, ⟨"Dog", "age", " Int ! "⟩],
      ⟨"Dog", "age(unit)", "[Unit"⟩, [⟨"Dog", "owner", "Owner?"⟩, ⟨"Dog", "age", "Int"⟩], ?_⟩
    decide +kernel
  · exact (ofDocuments_malformed ⟨0⟩ .usual (malformedDocuments.drop 1)).2.2 (by decide +kernel)

end QuerySurface.Schema
