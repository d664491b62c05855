import QuerySurface.Proofs.Plan.Derived
import QuerySurface.Proofs.Schema.Relocation

/-!
# Plans of relocated graphs

What is derived for a node depends on names and never on places: the abstractions of a moved node
are those of the node. Only the qualification of an interface has its members in the order in
which the objects stand in the graph.
-/

namespace QuerySurface.Plan.Engine

open Schema (Graph Node Field Argument TypeRef Relocation)

/-! ## Narrowing by name -/

/-- The member of the qualification of an interface that narrows to the object of a name; none if
nothing of this name is an object that implements the interface. -/
def narrowing? (engine : Engine) (node : Node) (name : String) : Option Member :=
  ((engine.graph.node? name).filter fun object =>
    object.kind == .object && (engine.graph.implements object).any (·.same node)).map
      fun object => .method (engine.narrowing object)

/-- The qualification of an interface has the members of the names of the graph, in their order. -/
theorem members_qualificationOf (engine : Engine) (hn : (Catalog.names engine.graph.nodes).Nodup)
    {node : Node} (hk : node.kind = .interface) :
    (engine.qualificationOf node).members =
      (Catalog.names engine.graph.nodes).filterMap (engine.narrowing? node) := by
  have hobjects : engine.graph.possibleObjects node = engine.graph.nodes.filter fun object =>
      object.kind == .object && (engine.graph.implements object).any (·.same node) := by
    rw [Graph.possibleObjects, hk, Graph.ofKind, List.filter_filter]
    exact List.filter_congr fun object _ => Bool.and_comm _ _
  have hfound : ∀ object ∈ engine.graph.nodes,
      engine.graph.node? (Named.name object) = some object :=
    fun object hm => Catalog.find?_of_mem hn hm
  -- Every node is found under its own name, so going through the names is going through the nodes.
  rw [qualificationOf, hobjects, Catalog.names, List.filterMap_map, ← List.filterMap_eq_map,
    List.filterMap_filter]
  refine List.filterMap_congr fun object hm => ?_
  simp only [Function.comp_apply, narrowing?, hfound object hm, Option.filter_some]
  split <;> rfl

/-! ## Moved nodes -/

section Moved

variable {move : Relocation} {graph other : Graph} {more : List Node}
  (h : Graph.Extends move graph other more) (layout : Layout)
include h

/-- A reference that no new node is behind has the same type of values. -/
theorem valueType_moved {type : TypeRef} (ht : type.node ∉ Catalog.names more) :
    (mk other layout).valueType type = (mk graph layout).valueType type := by
  rw [valueType, valueType, h.kindOf?_eq ht]

/-- A reference that no new node is behind has the same projection. -/
theorem nestedProjection_moved {type : TypeRef} (ht : type.node ∉ Catalog.names more) :
    (mk other layout).nestedProjection type = (mk graph layout).nestedProjection type := by
  rw [nestedProjection, nestedProjection, h.referenced?_eq ht]
  cases graph.referenced? type <;> rfl

/-- A moved field has the accessor of the field. -/
theorem accessor_moved {field : Field} (hf : field ∈ graph.fields) :
    (mk other layout).accessor (move.field field) = (mk graph layout).accessor field := by
  rw [accessor, accessor, h.isOverride_eq hf, h.fieldComments_eq hf,
    ← valueType_moved h layout (h.type_apart hf)]
  rfl

/-- A moved argument is the same parameter. -/
theorem argumentParameter_moved {field : Field} (hf : field ∈ graph.fields) {argument : Argument}
    (ha : argument ∈ field.arguments) (hasDefault : Bool) :
    (mk other layout).argumentParameter hasDefault (move.argument argument) =
      (mk graph layout).argumentParameter hasDefault argument := by
  rw [argumentParameter, argumentParameter, h.argumentComments_eq hf ha,
    ← valueType_moved h layout (h.argumentType_apart hf ha)]
  rfl

/-- A moved argument has the setter of the argument. -/
theorem setter_moved {field : Field} (hf : field ∈ graph.fields) {argument : Argument}
    (ha : argument ∈ field.arguments) :
    (mk other layout).setter (move.argument argument) = (mk graph layout).setter argument := by
  rw [setter, setter, h.argumentComments_eq hf ha,
    ← valueType_moved h layout (h.argumentType_apart hf ha)]
  rfl

/-- A moved field has the configurator of the field. -/
theorem configurator_moved (node : Node) {field : Field} (hf : field ∈ graph.fields) :
    (mk other layout).configurator (move.node node) (move.field field) =
      (mk graph layout).configurator node field := by
  rw [configurator, configurator, h.isSelection_eq hf,
    ← nestedProjection_moved h layout (h.type_apart hf)]
  rfl

/-- The selector of a moved field has the parameters of the field. -/
theorem selectorParameters_moved (node : Node) {field : Field} (hf : field ∈ graph.fields) :
    (mk other layout).selectorParameters (move.node node) (move.field field) =
      (mk graph layout).selectorParameters node field := by
  have harguments : ∀ (wanted : Argument → Bool) (hasDefault : Bool),
      (∀ argument, wanted (move.argument argument) = wanted argument) →
      ((move.field field).arguments.filter wanted).map
          ((mk other layout).argumentParameter hasDefault) =
        (field.arguments.filter wanted).map ((mk graph layout).argumentParameter hasDefault) := by
    intro wanted hasDefault hw
    have hwanted : wanted ∘ move.argument = wanted := funext hw
    rw [Relocation.field, List.filter_map, hwanted, List.map_map]
    refine List.map_congr_left fun argument ha => ?_
    exact argumentParameter_moved h layout hf (List.mem_filter.mp ha).1 hasDefault
  rw [selectorParameters, selectorParameters, configurator_moved h layout node hf,
    h.isSelection_eq hf, h.hasProjection_eq hf, harguments _ _ fun _ => rfl,
    harguments _ _ fun _ => rfl]

/-- A moved field has the selector of the field. -/
theorem selector_moved (node : Node) {field : Field} (hf : field ∈ graph.fields) :
    (mk other layout).selector (move.node node) (move.field field) =
      (mk graph layout).selector node field := by
  have hoverride : (other.overridden? (move.field field)).any (!·.required) =
      (graph.overridden? field).any (!·.required) := by
    rw [h.overridden?_eq hf, Option.any_map]
    rfl
  rw [selector, selector, selectorParameters_moved h layout node hf, hoverride,
    h.fieldComments_eq hf]
  rfl

/-- A moved field has the selection of the field. -/
theorem selection_moved (node : Node) {field : Field} (hf : field ∈ graph.fields) :
    (mk other layout).selection (move.node node) (move.field field) =
      (mk graph layout).selection node field := by
  have hmembers : ((move.field field).arguments.filter (·.type.nullable)).map
        (fun argument => Member.property ((mk other layout).setter argument)) =
      (field.arguments.filter (·.type.nullable)).map
        fun argument => .property ((mk graph layout).setter argument) := by
    rw [Relocation.field, List.filter_map, List.map_map]
    refine List.map_congr_left fun argument ha => ?_
    exact congrArg Member.property (setter_moved h layout hf (List.mem_filter.mp ha).1)
  rw [selection, selection, hmembers, h.fieldComments_eq hf]
  rfl

/-- A moved field has the query of the field. -/
theorem query_moved (node : Node) {field : Field} (hf : field ∈ graph.fields) :
    (mk other layout).query (move.node node) (move.field field) =
      (mk graph layout).query node field := by
  rw [query, query, h.fieldComments_eq hf, ← nestedProjection_moved h layout (h.type_apart hf)]
  rfl

/-! ## Abstractions of moved nodes -/

variable {node : Node} (hn : node ∈ graph.nodes)
include hn

/-- A moved node has the entity of the node. -/
theorem entity_moved :
    (mk other layout).entity (move.node node) = (mk graph layout).entity node := by
  have hmembers : (move.node node).fields.map
        (fun field => Member.property ((mk other layout).accessor field)) =
      node.fields.map fun field => .property ((mk graph layout).accessor field) := by
    rw [Relocation.node, List.map_map]
    refine List.map_congr_left fun field hf => ?_
    exact congrArg Member.property
      (accessor_moved h layout (Schema.Graph.mem_fields_iff.mpr ⟨node, hn, hf⟩))
  rw [entity, entity, hmembers, h.implements_eq (h.interfaces_apart hn), List.map_map]
  rfl

/-- A moved node has the projection of the node. -/
theorem projection_moved :
    (mk other layout).projection (move.node node) = (mk graph layout).projection node := by
  have hmembers : ((move.node node).fields.filter (!·.required)).map
        (fun field => Member.method ((mk other layout).selector (move.node node) field)) =
      (node.fields.filter (!·.required)).map
        fun field => .method ((mk graph layout).selector node field) := by
    rw [Relocation.node, List.filter_map, List.map_map]
    refine List.map_congr_left fun field hf => ?_
    exact congrArg Member.method (selector_moved h layout node
      (Schema.Graph.mem_fields_iff.mpr ⟨node, hn, (List.mem_filter.mp hf).1⟩))
  rw [projection, projection, hmembers, h.implements_eq (h.interfaces_apart hn), List.map_map]
  rfl

/-- A moved node has the selections and queries of the node. -/
theorem selections_moved :
    (mk other layout).selections (move.node node) = (mk graph layout).selections node := by
  rw [selections, selections, h.filter_isSelection hn, List.flatMap_map]
  refine List.flatMap_congr fun field hf => ?_
  have hf := Schema.Graph.mem_fields_iff.mpr ⟨node, hn, (List.mem_filter.mp hf).1⟩
  rw [selection_moved h layout node hf, query_moved h layout node hf]

/-- The qualification of a union has its members in declared order. -/
theorem qualificationOf_moved (hk : node.kind = .union) :
    (mk other layout).qualificationOf (move.node node) =
      (mk graph layout).qualificationOf node := by
  have hmoved : other.possibleObjects (move.node node) =
      (graph.possibleObjects node).map move.node := by
    have hkind : (move.node node).kind = .union := hk
    rw [Graph.possibleObjects, Graph.possibleObjects, hk, hkind]
    exact h.unionMembers_eq (h.members_apart hn)
  rw [qualificationOf, qualificationOf, hmoved, List.map_map]
  rfl

/-- Names have the same members wherever the nodes stand, but for those of other nodes. -/
theorem narrowing?_moved {name : String} (hname : name ∉ Catalog.names more) :
    (mk other layout).narrowing? (move.node node) name =
      (mk graph layout).narrowing? node name := by
  rw [narrowing?, narrowing?, h.node?_eq hname]
  cases hf : graph.node? name with
  | none => rfl
  | some object =>
    have hkind : (move.node object).kind = object.kind := rfl
    have hmem : object ∈ graph.nodes := Catalog.mem_of_find? hf
    simp only [Option.map_some, Option.filter_some, h.any_same_implements hn hmem, hkind]
    split <;> rfl

end Moved

end QuerySurface.Plan.Engine

namespace QuerySurface.Plan

open Schema (Graph Node Relocation)

/-! ## Labels of relocated graphs -/

section Labelled

variable {move : Relocation} {graph other : Graph} (h : graph.Relocates move other)
include h

/-- A moved node has the labels of the node. -/
theorem labelsOf_moved {node : Node} (hn : node ∈ graph.nodes) :
    labelsOf other (move.node node) = labelsOf graph node := by
  have hselected : selectedFields other (move.node node) =
      (selectedFields graph node).map move.field := by
    have hkind : (move.node node).kind = node.kind := rfl
    rw [selectedFields, selectedFields, h.filter_isSelection hn, hkind]
    split <;> rfl
  rw [labelsOf, labelsOf, hselected, List.flatMap_map]
  rfl

/-- The labels are the same, in some order. -/
theorem labels_perm : (labels graph).Perm (labels other) := by
  have hmoved : (graph.nodes.map move.node).flatMap (labelsOf other) = labels graph := by
    rw [List.flatMap_map, labels]
    exact List.flatMap_congr fun node hn => labelsOf_moved h hn
  have hnodes : (graph.nodes.map move.node).Perm other.nodes := by
    have hp := h.nodes
    rwa [List.append_nil] at hp
  exact hmoved ▸ hnodes.flatMap_right _

/-- The same names go. -/
theorem mem_unwantedNames_moved (layout : Layout) (name : String) :
    name ∈ unwantedNames other layout ↔ name ∈ unwantedNames graph layout := by
  simp only [mem_unwantedNames_iff, (labels_perm h).mem_iff]

end Labelled

end QuerySurface.Plan
