import QuerySurface.Proofs.Schema.Outcome
import QuerySurface.Schema.Overrides
import Mathlib.Data.Fintype.EquivFin
import Mathlib.Data.Fintype.Sets
import Mathlib.Logic.Relation
import Mathlib.Order.WellFounded

/-!
# The hierarchy of interfaces

Where the fields of a graph that was built stand, which interface fields they override, and why
going from nodes to the interfaces that they implement ends unless interfaces implement each
other in a circle. A build does not refuse such circles, so their absence is an assumption.
-/

namespace QuerySurface.Schema

/-! ## Names that are resolved -/

/-- What is resolved is what the names of other nodes find, if the kind fits. -/
theorem mem_resolve_iff {graph : Graph} {node target : Node} {kind : Kind} {names : List String} :
    target ∈ graph.resolve node kind names ↔
      ∃ name ∈ names, name ≠ node.name ∧ graph.node? name = some target ∧ target.kind = kind := by
  simp only [Graph.resolve, List.mem_filterMap, List.mem_filter, List.mem_eraseDups, and_assoc,
    Option.filter_eq_some_iff, beq_iff_eq, bne_iff_ne]

/-- Nodes that are resolved by name are nodes of the graph, and of the kind asked for. -/
theorem mem_resolve {graph : Graph} {node target : Node} {kind : Kind} {names : List String}
    (h : target ∈ graph.resolve node kind names) : target ∈ graph.nodes ∧ target.kind = kind := by
  obtain ⟨name, _, _, hn, hk⟩ := mem_resolve_iff.mp h
  exact ⟨Catalog.mem_of_find? hn, hk⟩

/-- The objects that a value can be are objects of the graph. -/
theorem mem_possibleObjects {graph : Graph} {node target : Node}
    (h : target ∈ graph.possibleObjects node) :
    target ∈ graph.nodes ∧ target.kind = .object := by
  unfold Graph.possibleObjects at h
  split at h
  · have ho := (List.mem_filter.mp h).1
    have hk := List.mem_filter.mp ho
    exact ⟨hk.1, by simpa using hk.2⟩
  · exact mem_resolve h
  · simp at h

namespace Graph

/-! ## Places -/

/-- The nodes and the fields of a graph stand under their own names and in their own places. -/
structure Placed (graph : Graph) : Prop where
  /-- No two nodes have one name. -/
  nodes : (Catalog.names graph.nodes).Nodup
  /-- No two fields of a node have one name. -/
  fields : ∀ node ∈ graph.nodes, (Catalog.names node.fields).Nodup
  /-- The identity of a field leads to the node that has the field. -/
  owner : ∀ node ∈ graph.nodes, ∀ field ∈ node.fields,
    graph.ownerOf? field = some node ∧ field.owner = node.name

/-- Everything in a graph that was built is in its place. -/
theorem placed_of_build {id : GraphId} {strictness : Strictness} {steps : List SchemaStep}
    {graph : Graph} (h : Graph.build id strictness steps = .ok graph) : graph.Placed := by
  have hnodes := nodes_of_build h
  have hw := lastWins_declaredNodes id steps
  rw [← hnodes] at hw
  refine ⟨?_, ?_, ?_⟩
  · rw [hw.names_eq]
    exact Catalog.nodup_eraseDups _
  · intro node hn
    obtain ⟨source, _, hd⟩ := hw.content node hn
    rw [hd.fields.names_eq]
    exact Catalog.nodup_eraseDups _
  · intro node hn field hf
    rw [hnodes] at hn
    obtain ⟨slot, hs, rfl⟩ := List.mem_mapIdx.mp hn
    obtain ⟨place, hp, rfl⟩ := List.mem_mapIdx.mp hf
    refine ⟨?_, rfl⟩
    have hat : (declaredNodes id steps)[slot]? = some _ :=
      (List.getElem?_mapIdx).trans (by rw [List.getElem?_eq_getElem hs]; rfl)
    rw [ownerOf?, hnodes]
    exact hat

/-- The arguments of a field of a graph that was built have different names. -/
theorem nodup_arguments_of_build {id : GraphId} {strictness : Strictness}
    {steps : List SchemaStep} {graph : Graph} (h : Graph.build id strictness steps = .ok graph)
    {node : Node} (hn : node ∈ graph.nodes) {field : Field} (hf : field ∈ node.fields) :
    (Catalog.names field.arguments).Nodup := by
  rw [nodes_of_build h] at hn
  obtain ⟨_, _, hd⟩ := (lastWins_declaredNodes id steps).content node hn
  obtain ⟨_, _, hdescribes⟩ := hd.fields.content field hf
  rw [hdescribes.arguments.names_eq]
  exact Catalog.nodup_eraseDups _

/-! ## Implementing -/

/-- A node of a graph implements an interface. -/
def Implements (graph : Graph) (node parent : Node) : Prop :=
  node ∈ graph.nodes ∧ parent ∈ graph.implements node

/-- What a node implements is an interface of the graph. -/
theorem Implements.parent_mem {graph : Graph} {node parent : Node}
    (h : graph.Implements node parent) : parent ∈ graph.nodes ∧ parent.kind = .interface :=
  mem_resolve h.2

/-- An overridden field is the field of that name of an interface that the node implements. -/
theorem exists_of_overridden? {graph : Graph} (hp : graph.Placed) {node : Node}
    (hn : node ∈ graph.nodes) {field next : Field} (hf : field ∈ node.fields)
    (h : graph.overridden? field = some next) :
    ∃ parent ∈ graph.implements node, next ∈ parent.fields ∧ next.name = field.name := by
  rw [overridden?, (hp.owner node hn field hf).1] at h
  obtain ⟨parent, hparent, hfound⟩ := List.exists_of_findSome?_eq_some h
  exact ⟨parent, hparent, Catalog.mem_of_find? hfound, Catalog.name_of_find? hfound⟩

end Graph

end QuerySurface.Schema
