import QuerySurface.Proofs.Plan.Selectors
import QuerySurface.Proofs.Schema.Mentions

/-!
# Narrowing to subtypes

A value of an interface or a union is one of some objects. The qualification of the node has a
member for each of these objects, which narrows a selection to the object and takes what the
projection of the object selects. The objects come from two directions: those of an interface are
all that implement it, and those of a union are the ones that it mentions.
-/

namespace QuerySurface.Plan

open Schema (Graph Node Kind SchemaStep Strictness GraphId)

/-- A plan has one abstraction of a family. -/
def NodePlan.HasOne (plan : NodePlan) (family : Family) (abstraction : Abstraction) : Prop :=
  plan.abstractions.filter (·.family == family) = [abstraction]

/-- A method narrows a selection to an object: it is named for the object, and its one parameter,
which may be left out, configures the projection in the plan of the object. -/
structure Narrows (engine : Engine) (object : Node) (method : Method) : Prop where
  /-- It has the name of the narrowing to the object. -/
  name : method.name = engine.layout.decorations.onSubtypeName object.name
  /-- It has one parameter, for the projection of the object. -/
  parameter : ∃ plan projection parameter, engine.plan object = .ok plan ∧
    plan.HasOne .projection projection ∧ method.parameters = [parameter] ∧
    parameter.hasDefault = true ∧ parameter.type = .configurator projection.name

/-- What a plan has for the subtypes of a node. -/
structure Qualified (engine : Engine) (node : Node) (plan : NodePlan) : Prop where
  /-- There is one qualification, with a narrowing method for every object that a value can be, in
  their order, and nothing else. -/
  qualification : ∃ qualification, engine.qualification node = .ok qualification ∧
    plan.HasOne .qualification qualification ∧
    List.Forall₂ (fun object member => ∃ method, member = .method method ∧
      Narrows engine object method) (engine.graph.possibleObjects node) qualification.members
  /-- There is one qualified projection. -/
  qualifiedProjection : ∃ qualifiedProjection,
    engine.qualifiedProjection node = .ok qualifiedProjection ∧
    plan.HasOne .qualifiedProjection qualifiedProjection

/-- A plan has nothing for subtypes, and asking for it fails. -/
structure Unqualified (engine : Engine) (node : Node) (plan : NodePlan) : Prop where
  /-- There is no qualification and no qualified projection. -/
  absent : ∀ abstraction ∈ plan.abstractions,
    abstraction.family ≠ .qualification ∧ abstraction.family ≠ .qualifiedProjection
  /-- A qualification is refused. -/
  qualification : engine.qualification node = .error (Engine.notPolymorphic node "qualification")
  /-- A qualified projection is refused. -/
  qualifiedProjection : engine.qualifiedProjection node =
    .error (Engine.notPolymorphic node "qualified projection")

/-! ## Abstractions of a family -/

section family

variable {engine : Engine} {node : Node}

/-- The plan of an interface or a union has four abstractions in front of its selections. -/
theorem abstractions_of_isPolymorphic (h : node.kind.isPolymorphic = true) :
    engine.abstractions node =
      [ engine.entity node, engine.projection node, engine.qualificationOf node,
        engine.qualifiedProjectionOf node ] ++ engine.selections node := by
  cases hk : node.kind <;> rw [hk] at h
  case interface | union => rw [Engine.abstractions, hk]
  all_goals cases h

/-- The plan of an interface or a union has one qualification and one qualified projection. -/
theorem hasOne_of_isPolymorphic (h : node.kind.isPolymorphic = true) :
    (engine.derived node).HasOne .qualification (engine.qualificationOf node) ∧
      (engine.derived node).HasOne .qualifiedProjection (engine.qualifiedProjectionOf node) := by
  have hqualification : (engine.selections node).filter (·.family == .qualification) = [] :=
    filter_selections engine node Family.noConfusion Family.noConfusion
  have hqualified : (engine.selections node).filter (·.family == .qualifiedProjection) = [] :=
    filter_selections engine node Family.noConfusion Family.noConfusion
  rw [NodePlan.HasOne, NodePlan.HasOne, Engine.derived, abstractions_of_isPolymorphic h,
    List.filter_append, List.filter_append, hqualification, hqualified]
  exact ⟨rfl, rfl⟩

/-- The plans of other nodes have neither. -/
theorem absent_of_not_isPolymorphic (h : node.kind.isPolymorphic = false) :
    ∀ abstraction ∈ (engine.derived node).abstractions,
      abstraction.family ≠ .qualification ∧ abstraction.family ≠ .qualifiedProjection := by
  intro abstraction ha
  obtain ⟨-, rfl | rfl | ⟨hp, -⟩ | ⟨field, -, -, rfl | rfl⟩⟩ := engine.mem_abstractions_iff.mp ha
  · exact ⟨Family.noConfusion, Family.noConfusion⟩
  · exact ⟨Family.noConfusion, Family.noConfusion⟩
  · rw [h] at hp
    cases hp
  · exact ⟨Family.noConfusion, Family.noConfusion⟩
  · exact ⟨Family.noConfusion, Family.noConfusion⟩

end family

/-! ## Narrowing -/

/-- The narrowing that is derived for an object narrows to it. -/
theorem narrows_narrowing (engine : Engine) {object : Node} (hk : object.kind = .object) :
    Narrows engine object (engine.narrowing object) where
  name := rfl
  parameter := by
    have hentity : object.kind.hasEntity = true := by
      rw [hk]
      rfl
    exact ⟨_, engine.projection object, _, engine.plan_eq object,
      filter_projection engine hentity, rfl, rfl, rfl⟩

/-- The plan of an interface or a union narrows to the objects that a value can be. -/
theorem qualified_derived (engine : Engine) {node : Node} (h : node.kind.isPolymorphic = true) :
    Qualified engine node (engine.derived node) where
  qualification := by
    refine ⟨engine.qualificationOf node, ?_, (hasOne_of_isPolymorphic h).1, ?_⟩
    · rw [Engine.qualification, if_pos h]
    · rw [Engine.qualificationOf, List.forall₂_map_right_iff, List.forall₂_same]
      intro object ho
      exact ⟨_, rfl, narrows_narrowing engine (Schema.mem_possibleObjects ho).2⟩
  qualifiedProjection :=
    ⟨_, by rw [Engine.qualifiedProjection, if_pos h], (hasOne_of_isPolymorphic h).2⟩

/-- The plan of any other node has nothing for subtypes. -/
theorem unqualified_derived (engine : Engine) {node : Node} (h : node.kind.isPolymorphic = false) :
    Unqualified engine node (engine.derived node) where
  absent := absent_of_not_isPolymorphic h
  qualification := by rw [Engine.qualification, h, if_neg Bool.false_ne_true]
  qualifiedProjection := by rw [Engine.qualifiedProjection, h, if_neg Bool.false_ne_true]

/-! ## Graphs that were built -/

/-- What a node is made of by way of names, and what its plan has for subtypes. -/
structure CoversSubtypes (graph : Graph) (layout : Layout) (node : Node) : Prop where
  /-- The node implements the other interfaces that it mentions, each once, in the order of their
  first mention. -/
  implements : graph.Mentioned node .interface node.interfaces (graph.implements node)
  /-- A value of an interface can be any object that implements it, each once, in the order of the
  graph. -/
  interface : node.kind = .interface → graph.Implementers node (graph.possibleObjects node)
  /-- A value of a union can be any object that the union mentions, each once, in the order of
  their first mention. -/
  union : node.kind = .union →
    graph.Mentioned node .object node.members (graph.possibleObjects node)
  /-- Nothing is repeated. -/
  nodup : (graph.implements node).Nodup ∧ (graph.possibleObjects node).Nodup
  /-- There is a plan of the node, and it narrows to these objects if the node is an interface or
  a union, and has nothing of the kind if it is not. -/
  plan : ∃ plan, (Engine.mk graph layout).plan node = .ok plan ∧
    (node.kind = .interface ∨ node.kind = .union → Qualified ⟨graph, layout⟩ node plan) ∧
    (node.kind ≠ .interface → node.kind ≠ .union → Unqualified ⟨graph, layout⟩ node plan)

/-- The subtypes in a graph that was built from any steps, under any layout. -/
theorem coversSubtypes_of_build {id : GraphId} {strictness : Strictness} {steps : List SchemaStep}
    {graph : Graph} (h : Graph.build id strictness steps = .ok graph) (layout : Layout) :
    ∀ node ∈ graph.nodes, CoversSubtypes graph layout node := by
  intro node hn
  have hp := Graph.placed_of_build h
  have himplements := hp.mentioned_resolve hn .interface node.interfaces
  have hinterface := hp.implementers_possibleObjects hn
  have hunion : node.kind = .union →
      graph.Mentioned node .object node.members (graph.possibleObjects node) := by
    intro hk
    rw [Graph.possibleObjects, hk]
    exact hp.mentioned_resolve hn .object node.members
  refine ⟨himplements, hinterface, hunion, ⟨himplements.nodup, ?_⟩, _, Engine.plan_eq _ node,
    ?_, ?_⟩
  · cases hk : node.kind with
    | interface => exact (hinterface hk).nodup hp
    | union => exact (hunion hk).nodup
    | _ =>
      rw [Graph.possibleObjects, hk]
      exact .nil
  · intro hk
    refine qualified_derived _ ?_
    rcases hk with hk | hk <;> rw [hk] <;> rfl
  · intro hi hu
    refine unqualified_derived _ ?_
    cases hk : node.kind <;> first | rfl | exact absurd hk hi | exact absurd hk hu

/-- A schema in which an interface and a union have the same objects in different orders, and names
are repeated or fit nothing. -/
def animalSteps : List SchemaStep :=
  [ .node "Named" .interface [.implements "Named", .implements "Animal"],
    .node "Cat" .object [.implements "Named", .implements "Cat", .implements "Named"],
    .node "Animal" .union [.member "Dog", .member "Named", .member "Cat", .member "Dog"],
    .node "Stone" .object [],
    .node "Dog" .object [.implements "Animal", .implements "Named"] ]

/-- The subtypes of this schema come in the two orders. -/
theorem coversSubtypes_animal :
    ∃ graph, Graph.build ⟨0⟩ .lenient animalSteps = .ok graph ∧
      graph.nodes.map (fun node => (graph.possibleObjects node).map Node.name) =
        [["Cat", "Dog"], [], ["Dog", "Cat"], [], []] ∧
      ∀ node ∈ graph.nodes, CoversSubtypes graph .usual node := by
  obtain ⟨graph, h, hobjects⟩ : ∃ graph, Graph.build ⟨0⟩ .lenient animalSteps = .ok graph ∧
      graph.nodes.map (fun node => (graph.possibleObjects node).map Node.name) =
        [["Cat", "Dog"], [], ["Dog", "Cat"], [], []] := ⟨_, rfl, by decide⟩
  exact ⟨graph, h, hobjects, coversSubtypes_of_build h .usual⟩

end QuerySurface.Plan
