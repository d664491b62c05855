import QuerySurface.Proofs.Schema.Chains
import QuerySurface.Proofs.Schema.Places

/-!
# Relocated graphs

Nodes refer to each other by name, and to their own place by identity. A relocation moves every
node of a graph to another place, possibly of another graph, and changes nothing else. Whatever
is derived from a graph by way of names and places, the interfaces that are implemented, the
fields that are overridden, the comments that stand in for missing ones, is moved along: no
derived fact depends on where a node stands. Only the objects of an interface come in the order
of the graph. The same is true if the other graph has more nodes, as long as nothing mentions them.
-/

namespace QuerySurface.Schema

/-! ## Moving -/

/-- Where the nodes of a graph go. -/
structure Relocation where
  /-- The graph that they go to. -/
  graph : GraphId
  /-- The place that each goes to. -/
  slot : Nat → Nat

namespace Relocation

variable (move : Relocation)

/-- A moved identity of a field. -/
def fieldId (id : FieldId) : FieldId :=
  ⟨move.graph, move.slot id.node, id.field⟩

/-- A moved argument. -/
def argument (argument : Argument) : Argument :=
  { argument with field := move.fieldId argument.field }

/-- A moved field. -/
def field (field : Field) : Field :=
  { field with
    id := move.fieldId field.id
    arguments := field.arguments.map move.argument }

/-- A moved node. -/
def node (node : Node) : Node :=
  { node with
    graph := move.graph
    slot := move.slot node.slot
    fields := node.fields.map move.field }

/-- A moved node has its fields by their names. -/
theorem field?_node (node : Node) (name : String) :
    (move.node node).field? name = (node.field? name).map move.field :=
  Catalog.find?_map move.field (fun _ => rfl) name node.fields

/-- A moved field has its arguments by their names. -/
theorem argument?_field (field : Field) (name : String) :
    (move.field field).argument? name = (field.argument? name).map move.argument :=
  Catalog.find?_map move.argument (fun _ => rfl) name field.arguments

/-- A declared field is moved by declaring it elsewhere. -/
theorem field_declared (id : FieldId) (owner : String) (declared : FieldDeclaration) :
    move.field (declared.field id owner) = declared.field (move.fieldId id) owner := by
  have harguments : (declared.field id owner).arguments.map move.argument =
      (declared.field (move.fieldId id) owner).arguments := List.map_map
  rw [field, harguments]
  rfl

/-- A declared node is moved by declaring it elsewhere. -/
theorem node_declared (id : GraphId) (slot : Nat) (declared : NodeDeclaration) :
    move.node (declared.node id slot) = declared.node move.graph (move.slot slot) := by
  have hfields : (declared.node id slot).fields.map move.field =
      (declared.node move.graph (move.slot slot)).fields := by
    dsimp only [NodeDeclaration.node]
    rw [Catalog.map_mapIdx]
    congr 1
    funext place field
    exact move.field_declared _ _ field
  rw [node, hfields]
  rfl

end Relocation

/-- Nodes go to another graph and keep their places. -/
def Relocation.onto (id : GraphId) : Relocation :=
  ⟨id, fun slot => slot⟩

/-- A graph under another identity. -/
def Graph.renamed (id : GraphId) (graph : Graph) : Graph :=
  { graph with
    id := id
    nodes := graph.nodes.map (Relocation.onto id).node }

/-- The nodes that steps declare in another graph. -/
theorem declaredNodes_onto (id other : GraphId) (steps : List SchemaStep) :
    (declaredNodes id steps).map (Relocation.onto other).node = declaredNodes other steps := by
  rw [declaredNodes, Catalog.map_mapIdx]
  congr 1
  funext slot declared
  exact (Relocation.onto other).node_declared id slot declared

/-- The graph that steps describe, under another identity. -/
theorem renamed_declaredGraph (id other : GraphId) (steps : List SchemaStep)
    (found : List Diagnostic) :
    (declaredGraph id steps found).renamed other = declaredGraph other steps found := by
  rw [Graph.renamed, declaredGraph]
  dsimp only
  rw [declaredNodes_onto]
  rfl

/-! ## Graphs in which everything is in its place -/

namespace Graph

/-- Everything in a graph stands in its place and belongs to the graph. -/
structure Housed (graph : Graph) : Prop extends graph.Placed where
  /-- The nodes belong to the graph. -/
  home : ∀ node ∈ graph.nodes, node.graph = graph.id
  /-- The identity of a field leads to it. -/
  field : ∀ node ∈ graph.nodes, ∀ field ∈ node.fields, graph.field? field.id = some field
  /-- Arguments have the identity of their field. -/
  argument : ∀ node ∈ graph.nodes, ∀ field ∈ node.fields, ∀ argument ∈ field.arguments,
    argument.field = field.id

/-- Everything in a graph that was built is in its place and belongs to the graph. -/
theorem housed_of_build {id : GraphId} {strictness : Strictness} {steps : List SchemaStep}
    {graph : Graph} (h : Graph.build id strictness steps = .ok graph) : graph.Housed := by
  have hi := indexed_of_build h
  refine { placed_of_build h with home := ?_, field := ?_, argument := ?_ }
  · intro node hn
    obtain ⟨slot, hs⟩ := List.mem_iff_getElem?.mp hn
    exact (hi.node hs).1
  · intro node hn field hf
    exact (hi.reads_field hn hf).2.2
  · intro node hn field hf argument ha
    obtain ⟨slot, hs⟩ := List.mem_iff_getElem?.mp hn
    obtain ⟨place, hp⟩ := List.mem_iff_getElem?.mp hf
    exact hi.argument hs hp ha

end Graph

/-! ## Names that are mentioned -/

/-- The names that stand in a node: its own, and those that refer to other nodes, of interfaces, of
union members, and in the types of fields and arguments. -/
def Node.mentioned (node : Node) : List String :=
  node.name :: (node.interfaces ++ node.members ++
    node.fields.flatMap fun field => field.type.node :: field.arguments.map (·.type.node))

namespace Graph

/-- The names that stand in the nodes of a graph. -/
def mentioned (graph : Graph) : List String :=
  graph.nodes.flatMap Node.mentioned

/-- The name of a node is mentioned. -/
theorem name_mem_mentioned {graph : Graph} {node : Node} (hn : node ∈ graph.nodes) :
    node.name ∈ graph.mentioned :=
  List.mem_flatMap.mpr ⟨node, hn, List.mem_cons_self⟩

/-! ## Facts that are moved along -/

/-- A graph holds the moved nodes of another, in some order, and more nodes that the other does
not mention. -/
structure Extends (move : Relocation) (graph other : Graph) (more : List Node) : Prop where
  /-- Everything is in its place before. -/
  source : graph.Housed
  /-- Everything is in its place afterwards. -/
  target : other.Housed
  /-- The nodes are the moved ones and the others. -/
  nodes : (graph.nodes.map move.node ++ more).Perm other.nodes
  /-- The others are not mentioned. -/
  apart : ∀ node ∈ more, node.name ∉ graph.mentioned

/-- A graph holds the moved nodes of another, in some order, and nothing else. -/
def Relocates (move : Relocation) (graph other : Graph) : Prop :=
  Extends move graph other []

/-- The moved nodes make up a graph in which everything is in its place. -/
theorem relocates_of_perm {move : Relocation} {graph other : Graph} (hsource : graph.Housed)
    (htarget : other.Housed) (hnodes : (graph.nodes.map move.node).Perm other.nodes) :
    graph.Relocates move other where
  source := hsource
  target := htarget
  nodes := (List.append_nil _).symm ▸ hnodes
  apart := fun _ hm => (List.not_mem_nil hm).elim

namespace Extends

variable {move : Relocation} {graph other : Graph} {more : List Node}
  (h : Extends move graph other more)
include h

/-- What is mentioned is not the name of another node. -/
theorem not_mem_names {name : String} (hm : name ∈ graph.mentioned) :
    name ∉ Catalog.names more := by
  intro hn
  obtain ⟨node, hmore, rfl⟩ := List.mem_map.mp hn
  exact h.apart node hmore hm

/-- The interfaces of a node are not among the others. -/
theorem interfaces_apart {node : Node} (hn : node ∈ graph.nodes) :
    ∀ name ∈ node.interfaces, name ∉ Catalog.names more := by
  intro name hm
  apply h.not_mem_names
  exact List.mem_flatMap.mpr ⟨node, hn, by simp [Node.mentioned, hm]⟩

/-- The members of a node are not among the others. -/
theorem members_apart {node : Node} (hn : node ∈ graph.nodes) :
    ∀ name ∈ node.members, name ∉ Catalog.names more := by
  intro name hm
  apply h.not_mem_names
  exact List.mem_flatMap.mpr ⟨node, hn, by simp [Node.mentioned, hm]⟩

omit h in
/-- The types of a field and of its arguments are mentioned. -/
theorem type_mem_mentioned {field : Field} (hf : field ∈ graph.fields) {name : String}
    (hm : name ∈ field.type.node :: field.arguments.map (·.type.node)) :
    name ∈ graph.mentioned := by
  obtain ⟨node, hn, hfield⟩ := mem_fields_iff.mp hf
  have hfields : name ∈ node.fields.flatMap fun field =>
      field.type.node :: field.arguments.map (·.type.node) :=
    List.mem_flatMap.mpr ⟨field, hfield, hm⟩
  exact List.mem_flatMap.mpr ⟨node, hn, List.mem_cons_of_mem _ (List.mem_append_right _ hfields)⟩

/-- The types of fields are not among the others. -/
theorem type_apart {field : Field} (hf : field ∈ graph.fields) :
    field.type.node ∉ Catalog.names more :=
  h.not_mem_names (type_mem_mentioned hf List.mem_cons_self)

/-- The types of arguments are not among the others. -/
theorem argumentType_apart {field : Field} (hf : field ∈ graph.fields) {argument : Argument}
    (ha : argument ∈ field.arguments) : argument.type.node ∉ Catalog.names more :=
  h.not_mem_names (type_mem_mentioned hf
    (List.mem_cons_of_mem _ (List.mem_map_of_mem (f := fun a => a.type.node) ha)))

/-- A moved node is there. -/
theorem node_mem {node : Node} (hn : node ∈ graph.nodes) : move.node node ∈ other.nodes :=
  h.nodes.mem_iff.mp (List.mem_append_left _ (List.mem_map_of_mem hn))

/-- All names are different. -/
theorem nodup_names : (Catalog.names (graph.nodes.map move.node ++ more)).Nodup :=
  (h.nodes.map _).nodup_iff.mpr h.target.nodes

/-- Names lead to the moved nodes, but for those of the others. -/
theorem node?_eq {name : String} (hname : name ∉ Catalog.names more) :
    other.node? name = (graph.node? name).map move.node := by
  have hmore : Catalog.find? name more = none := Catalog.find?_eq_none_iff.mpr hname
  rw [node?, ← Catalog.find?_perm h.nodes h.nodup_names, Catalog.find?_append, hmore,
    Option.or_none, Catalog.find?_map move.node (fun _ => rfl)]
  rfl

/-- The names of the others lead to them. -/
theorem node?_more {node : Node} (hm : node ∈ more) : other.node? node.name = some node :=
  Catalog.find?_of_mem h.target.nodes (h.nodes.mem_iff.mp (List.mem_append_right _ hm))

/-- Kinds of nodes stay. -/
theorem kindOf?_eq {name : String} (hname : name ∉ Catalog.names more) :
    other.kindOf? name = graph.kindOf? name := by
  rw [kindOf?, h.node?_eq hname, Option.map_map]
  rfl

/-- Types refer to the moved nodes. -/
theorem referenced?_eq {type : TypeRef} (ht : type.node ∉ Catalog.names more) :
    other.referenced? type = (graph.referenced? type).map move.node :=
  h.node?_eq ht

/-- What nodes name is moved along. -/
theorem resolve_eq (node : Node) (kind : Kind) {names : List String}
    (hnames : ∀ name ∈ names, name ∉ Catalog.names more) :
    other.resolve (move.node node) kind names = (graph.resolve node kind names).map move.node := by
  have hfound : ∀ name ∈ names.eraseDups.filter (· != node.name),
      (other.node? name).filter (·.kind == kind) =
        ((graph.node? name).filter (·.kind == kind)).map move.node := by
    intro name hm
    have hmem : name ∈ names := List.mem_eraseDups.mp (List.mem_filter.mp hm).1
    rw [h.node?_eq (hnames name hmem)]
    cases graph.node? name with
    | none => rfl
    | some found => cases hk : found.kind == kind <;> simp [Option.filter, Relocation.node, hk]
  have hmoved := List.filterMap_congr hfound
  rw [resolve, resolve, List.map_filterMap]
  exact hmoved

/-- Implemented interfaces are moved along. -/
theorem implements_eq {node : Node} (hi : ∀ name ∈ node.interfaces, name ∉ Catalog.names more) :
    other.implements (move.node node) = (graph.implements node).map move.node :=
  h.resolve_eq node .interface hi

/-- Union members are moved along. -/
theorem unionMembers_eq {node : Node} (hi : ∀ name ∈ node.members, name ∉ Catalog.names more) :
    other.unionMembers (move.node node) = (graph.unionMembers node).map move.node :=
  h.resolve_eq node .object hi

/-- Whether an object implements a node does not change. -/
theorem any_same_implements {node object : Node} (hn : node ∈ graph.nodes)
    (ho : object ∈ graph.nodes) :
    (other.implements (move.node object)).any (·.same (move.node node)) =
      (graph.implements object).any (·.same node) := by
  have hsame : ∀ parent ∈ graph.implements object,
      (move.node parent).same (move.node node) = parent.same node := by
    intro parent hp
    have hgraph : parent.graph = node.graph :=
      (h.source.home parent (mem_resolve hp).1).trans (h.source.home node hn).symm
    simp [Node.same, Relocation.node, hgraph]
  rw [h.implements_eq (h.interfaces_apart ho), List.any_map, Bool.eq_iff_iff, List.any_eq_true,
    List.any_eq_true]
  refine exists_congr fun parent => and_congr_right fun hp => ?_
  rw [Function.comp_apply, hsame parent hp]

/-- Overridden fields are moved along. -/
theorem overridden?_eq {field : Field} (hf : field ∈ graph.fields) :
    other.overridden? (move.field field) = (graph.overridden? field).map move.field := by
  obtain ⟨node, hn, hm⟩ := mem_fields_iff.mp hf
  have hmoved : move.field field ∈ (move.node node).fields := List.mem_map_of_mem hm
  rw [overridden?, overridden?, (h.source.owner node hn field hm).1,
    (h.target.owner _ (h.node_mem hn) _ hmoved).1]
  dsimp only
  rw [h.implements_eq (h.interfaces_apart hn), List.findSome?_map, List.map_findSome?]
  congr 1
  funext parent
  exact move.field?_node parent field.name

/-- Whether a field overrides another does not change. -/
theorem isOverride_eq {field : Field} (hf : field ∈ graph.fields) :
    other.isOverride (move.field field) = graph.isOverride field := by
  rw [isOverride, isOverride, h.overridden?_eq hf, Option.isSome_map]

/-- The beginning of a chain is moved along. -/
theorem chainFor_eq (steps : Nat) {field : Field} (hf : field ∈ graph.fields) :
    other.chainFor steps (move.field field) = (graph.chainFor steps field).map move.field := by
  induction steps generalizing field with
  | zero => rfl
  | succ steps ih =>
    rw [chainFor, chainFor, h.overridden?_eq hf]
    cases hover : graph.overridden? field with
    | none => rfl
    | some next =>
      have hnext := h.source.overridden?_mem hf hover
      simp only [Option.map_some, List.map_cons, ih hnext]

/-- There are the fields of the moved nodes and those of the others. -/
theorem length_fields :
    other.fields.length = graph.fields.length + (more.flatMap Node.fields).length := by
  have hmoved : ((graph.nodes.map move.node).flatMap Node.fields).length =
      graph.fields.length := by
    rw [fields, List.flatMap_map, List.length_flatMap, List.length_flatMap]
    simp [Relocation.node]
  rw [fields, ← (h.nodes.flatMap_right Node.fields).length_eq, List.flatMap_append,
    List.length_append, hmoved]

/-- The chain of a field is moved along. In the larger graph it is walked farther and may repeat
fields at its end. -/
theorem repeats_chain {field : Field} (hf : field ∈ graph.fields) :
    Repeats ((graph.chain field).map move.field) (other.chain (move.field field)) := by
  have hsteps : graph.fields.length ≤ other.fields.length := by
    have hlength := h.length_fields
    omega
  have hchain : other.chain (move.field field) =
      (graph.chainFor other.fields.length field).map move.field := h.chainFor_eq _ hf
  rw [hchain]
  exact (h.source.repeats_chainFor hf hsteps).map move.field

/-- The comments of a field do not change. -/
theorem fieldComments_eq {field : Field} (hf : field ∈ graph.fields) :
    other.fieldComments (move.field field) = graph.fieldComments field := by
  rw [fieldComments, firstComments_of_repeats ((h.repeats_chain hf).map Field.comments),
    List.map_map]
  rfl

omit h in
/-- Arguments along moved fields. -/
theorem argumentsAlong_map (name : String) (fields : List Field) :
    argumentsAlong name (fields.map move.field) =
      (argumentsAlong name fields).map move.argument := by
  induction fields with
  | nil => rfl
  | cons field rest ih =>
    rw [List.map_cons, argumentsAlong, argumentsAlong, move.argument?_field]
    cases field.argument? name with
    | none => rfl
    | some argument => simp only [Option.map_some, List.map_cons, ih]

/-- The comments of an argument do not change. -/
theorem argumentComments_eq {field : Field} (hf : field ∈ graph.fields) {argument : Argument}
    (ha : argument ∈ field.arguments) :
    other.argumentComments (move.argument argument) = graph.argumentComments argument := by
  obtain ⟨node, hn, hm⟩ := mem_fields_iff.mp hf
  have hmoved : move.field field ∈ (move.node node).fields := List.mem_map_of_mem hm
  have hargument : move.argument argument ∈ (move.field field).arguments :=
    List.mem_map_of_mem ha
  have hrepeats := repeats_argumentsAlong (h.repeats_chain hf) argument.name
  have hcomments := firstComments_of_repeats (hrepeats.map Argument.comments)
  rw [argumentsAlong_map, List.map_map] at hcomments
  rw [argumentComments, argumentComments, h.source.argument node hn field hm argument ha,
    h.source.field node hn field hm,
    h.target.argument _ (h.node_mem hn) _ hmoved _ hargument,
    h.target.field _ (h.node_mem hn) _ hmoved]
  -- The identity of an argument leads to its field in either graph.
  exact hcomments

/-- Whether the value of a field has a projection does not change. -/
theorem hasProjection_eq {field : Field} (hf : field ∈ graph.fields) :
    other.hasProjection (move.field field).type = graph.hasProjection field.type := by
  have htype : (move.field field).type = field.type := rfl
  rw [hasProjection, hasProjection, htype, h.referenced?_eq (h.type_apart hf), Option.any_map]
  rfl

/-- Whether a field can be selected without giving anything does not change. -/
theorem isSelection_eq {field : Field} (hf : field ∈ graph.fields) :
    other.isSelection (move.field field) = graph.isSelection field := by
  have harguments : (move.field field).arguments.all Argument.isInitialized =
      field.arguments.all Argument.isInitialized := List.all_map
  rw [isSelection, isSelection, h.hasProjection_eq hf, harguments]

/-- The fields that can be selected without giving anything are moved along. -/
theorem filter_isSelection {node : Node} (hn : node ∈ graph.nodes) :
    (move.node node).fields.filter other.isSelection =
      (node.fields.filter graph.isSelection).map move.field := by
  rw [Relocation.node, List.filter_map]
  congr 1
  refine List.filter_congr fun field hf => ?_
  exact h.isSelection_eq (mem_fields_iff.mpr ⟨node, hn, hf⟩)

end Extends

namespace Relocates

variable {move : Relocation} {graph other : Graph} (h : graph.Relocates move other)
include h

/-- If the nodes keep their order, the objects that a value can be are moved along. -/
theorem possibleObjects_eq (ho : graph.nodes.map move.node = other.nodes) {node : Node}
    (hn : node ∈ graph.nodes) :
    other.possibleObjects (move.node node) = (graph.possibleObjects node).map move.node := by
  have hkind : (move.node node).kind = node.kind := rfl
  have hobjects : other.ofKind .object = (graph.ofKind .object).map move.node := by
    rw [ofKind, ← ho, List.filter_map]
    rfl
  unfold possibleObjects
  rw [hkind]
  split
  · rw [hobjects, List.filter_map]
    congr 1
    refine List.filter_congr ?_
    intro object hm
    exact h.any_same_implements hn (List.mem_filter.mp hm).1
  · exact h.unionMembers_eq (h.members_apart hn)
  · rfl

/-- The chain of a field is moved along. -/
theorem chain_eq {field : Field} (hf : field ∈ graph.fields) :
    other.chain (move.field field) = (graph.chain field).map move.field := by
  rw [chain, chain, h.length_fields, List.flatMap_nil, List.length_nil, Nat.add_zero,
    h.chainFor_eq _ hf]

end Relocates

end Graph

end QuerySurface.Schema
