import QuerySurface.Proofs.Schema.Building

/-!
# What a build yields

Two laws over all lists of steps. A graph that is built is the ordered map of the steps in which
the last declaration wins, on the levels of nodes, of fields, of arguments and of enum values. A
build reports exactly the problems of the steps, graded by the strictness, and fails exactly if
an error is among them.
-/

namespace QuerySurface.Schema

/-- A build that succeeds yields the graph that its steps describe. -/
theorem eq_declaredGraph_of_build {id : GraphId} {strictness : Strictness}
    {steps : List SchemaStep} {graph : Graph} (h : Graph.build id strictness steps = .ok graph) :
    graph = declaredGraph id steps (reported strictness (problems steps)) := by
  rw [build_eq] at h
  split at h
  · cases h
  · exact (Except.ok.inj h).symm

/-- The nodes of a graph that is built are those that the declarations stand for. -/
theorem nodes_of_build {id : GraphId} {strictness : Strictness} {steps : List SchemaStep}
    {graph : Graph} (h : Graph.build id strictness steps = .ok graph) :
    graph.nodes = declaredNodes id steps :=
  congrArg Graph.nodes (eq_declaredGraph_of_build h)

/-- A graph that is built has the identity that it is built for. -/
theorem id_of_build {id : GraphId} {strictness : Strictness} {steps : List SchemaStep}
    {graph : Graph} (h : Graph.build id strictness steps = .ok graph) : graph.id = id :=
  congrArg Graph.id (eq_declaredGraph_of_build h)

/-- In a graph that is built the last declaration wins on every level: the nodes stand in the
order in which their names were first declared, and each has the kind, interfaces, members and
comments of the last declaration of its name; so do the enum values and the fields inside that
declaration, and the arguments inside the surviving declaration of a field. -/
theorem lastWins_nodes_of_build {id : GraphId} {strictness : Strictness} {steps : List SchemaStep}
    {graph : Graph} (h : Graph.build id strictness steps = .ok graph) :
    Catalog.LastWins NodeDeclaration.Describes (declarations steps) graph.nodes := by
  rw [eq_declaredGraph_of_build h]
  exact lastWins_declaredNodes id steps

/-- A schema that repeats a node, a field, an argument and an enum value. -/
def repeatedSteps : List SchemaStep :=
  [ .node "Int" .scalar [],
    .node "Person" .object
      [ .comment "first",
        .field "age" ⟨"Int", false, true⟩ false false [.comment "old"] ],
    .node "Color" .enum [.enumValue "RED" ["warm"], .enumValue "BLUE" [], .enumValue "RED" []],
    .node "Person" .object
      [ .field "name" ⟨"Int", false, true⟩ false false
          [.argument "a" ⟨"Int", false, true⟩ false ["lost"]],
        .field "age" ⟨"Int", true, false⟩ true false [],
        .field "name" ⟨"Color", false, true⟩ false true
          [ .argument "b" ⟨"Int", false, true⟩ false [],
            .argument "c" ⟨"Int", false, true⟩ false [],
            .argument "b" ⟨"Int", true, true⟩ true ["last"] ] ] ]

/-- The schema with repetitions can be built, and the law holds of its graph. -/
theorem lastWins_repeatedSteps :
    ∃ graph, Graph.build ⟨0⟩ .lenient repeatedSteps = .ok graph ∧
      Catalog.LastWins NodeDeclaration.Describes (declarations repeatedSteps) graph.nodes := by
  obtain ⟨graph, h⟩ : ∃ graph, Graph.build ⟨0⟩ .lenient repeatedSteps = .ok graph := ⟨_, rfl⟩
  exact ⟨graph, h, lastWins_nodes_of_build h⟩

/-- A diagnostic is a warning or an error. -/
theorem severity_eq_warning_iff (item : Diagnostic) :
    item.severity = .warning ↔ ¬item.severity = .error := by
  cases item.severity <;> simp

/-- A build fails with everything that is reported exactly if an error is among it. -/
theorem build_eq_error_iff (id : GraphId) (strictness : Strictness) (steps : List SchemaStep) :
    Graph.build id strictness steps =
        .error (.diagnostics ⟨reported strictness (problems steps)⟩) ↔
      ∃ item ∈ reported strictness (problems steps), item.severity = .error := by
  have hany : (reported strictness (problems steps)).any (·.severity == .error) = true ↔
      ∃ item ∈ reported strictness (problems steps), item.severity = .error := by
    simp
  rw [← hany, build_eq]
  constructor
  · intro h
    split at h
    · assumption
    · cases h
  · intro h
    rw [if_pos h]

/-- A build succeeds exactly if nothing but warnings is reported. -/
theorem build_eq_ok_iff (id : GraphId) (strictness : Strictness) (steps : List SchemaStep) :
    Graph.build id strictness steps =
        .ok (declaredGraph id steps (reported strictness (problems steps))) ↔
      ∀ item ∈ reported strictness (problems steps), item.severity = .warning := by
  have hany : (∀ item ∈ reported strictness (problems steps), item.severity = .warning) ↔
      ¬(reported strictness (problems steps)).any (·.severity == .error) = true := by
    simp [severity_eq_warning_iff]
  rw [hany, build_eq]
  constructor
  · intro h
    split at h
    · cases h
    · assumption
  · intro h
    rw [if_neg h]

/-- The outcome of a build, for any steps and any strictness. With `found` for what the strictness
reports of the problems of the steps: `found` is the one list that grades the problems, in their
order, without those to ignore; the build fails with all of `found`, warnings included, exactly
if an error is among it, and else yields the graph of the steps with `found` as its diagnostics.
Missing types and roots of a wrong kind are always errors. -/
theorem build_outcome (id : GraphId) (strictness : Strictness) (steps : List SchemaStep) :
    let found := reported strictness (problems steps)
    (∀ items, Graded strictness (problems steps) items ↔ items = found) ∧
      (Graph.build id strictness steps = .error (.diagnostics ⟨found⟩) ↔
        ∃ item ∈ found, item.severity = .error) ∧
      (Graph.build id strictness steps = .ok (declaredGraph id steps found) ↔
        ∀ item ∈ found, item.severity = .warning) ∧
      ∀ item ∈ found, item.code = .unresolvedType ∨ item.code = .rootKindMismatch →
        item.severity = .error := by
  intro found
  refine ⟨graded_iff strictness (problems steps), build_eq_error_iff id strictness steps,
    build_eq_ok_iff id strictness steps, ?_⟩
  intro item hm hc
  exact severity_of_mem_reported strictness hm hc

end QuerySurface.Schema
