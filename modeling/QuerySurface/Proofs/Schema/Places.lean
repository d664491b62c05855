import QuerySurface.Proofs.Catalog.Apart
import QuerySurface.Proofs.Schema.Hierarchy

/-!
# Places that are recorded

A node records where it stands, and the identity of a field says where the field stands. Both are
settled before the node or the field is filled and put in: at the end if the name is new, else
where the name stands already. The declared nodes are made in the places where they stand, so what
is recorded is true of every graph that was built, whatever was declared again in between.
-/

namespace QuerySurface.Schema

/-- What stands in a place of entries that are made in their places. -/
theorem exists_of_getElem?_mapIdx {α β : Type} {make : Nat → α → β} {entries : List α}
    {place : Nat} {made : β} (h : (entries.mapIdx make)[place]? = some made) :
    ∃ entry ∈ entries, made = make place entry := by
  rw [List.getElem?_mapIdx] at h
  obtain ⟨entry, he, rfl⟩ := Option.map_eq_some_iff.mp h
  exact ⟨entry, List.mem_of_getElem? he, rfl⟩

namespace Graph

/-- What the nodes and the fields of a graph record of their places is true. -/
structure Indexed (graph : Graph) : Prop where
  /-- A node belongs to the graph and records its position. -/
  node {slot : Nat} {node : Node} (stands : graph.nodes[slot]? = some node) :
    node.graph = graph.id ∧ node.slot = slot
  /-- A node is found under its name, and so is its position. -/
  nodeKey {slot : Nat} {node : Node} (stands : graph.nodes[slot]? = some node) :
    graph.node? node.name = some node ∧ Catalog.slot? node.name graph.nodes = some slot
  /-- A field has the identity of its place and records the name of its node. -/
  field {slot place : Nat} {node : Node} {field : Field}
    (stands : graph.nodes[slot]? = some node) (has : node.fields[place]? = some field) :
    field.id = ⟨graph.id, slot, place⟩ ∧ field.owner = node.name
  /-- A field is found under its name in its node, and so is its position. -/
  fieldKey {slot place : Nat} {node : Node} {field : Field}
    (stands : graph.nodes[slot]? = some node) (has : node.fields[place]? = some field) :
    node.field? field.name = some field ∧ Catalog.slot? field.name node.fields = some place
  /-- The arguments of a field have the identity of the field. -/
  argument {slot place : Nat} {node : Node} {field : Field} {argument : Argument}
    (stands : graph.nodes[slot]? = some node) (has : node.fields[place]? = some field)
    (takes : argument ∈ field.arguments) : argument.field = field.id

/-- What a graph that was built records of places is true. -/
theorem indexed_of_build {id : GraphId} {strictness : Strictness} {steps : List SchemaStep}
    {graph : Graph} (h : Graph.build id strictness steps = .ok graph) : graph.Indexed := by
  have hp := placed_of_build h
  have hmade : ∀ {slot node}, graph.nodes[slot]? = some node →
      ∃ declared ∈ Catalog.surviving (declarations steps), node = declared.node id slot := by
    intro slot node hs
    rw [nodes_of_build h] at hs
    exact exists_of_getElem?_mapIdx hs
  refine ⟨?_, ?_, ?_, ?_, ?_⟩
  · intro slot node hs
    obtain ⟨declared, _, rfl⟩ := hmade hs
    exact ⟨(id_of_build h).symm, rfl⟩
  · intro slot node hs
    exact ⟨Catalog.find?_of_mem hp.nodes (List.mem_of_getElem? hs),
      Catalog.slot?_of_getElem? hp.nodes hs⟩
  · intro slot place node field hs hf
    obtain ⟨declared, _, rfl⟩ := hmade hs
    obtain ⟨inner, _, rfl⟩ := exists_of_getElem?_mapIdx hf
    rw [id_of_build h]
    exact ⟨rfl, rfl⟩
  · intro slot place node field hs hf
    have hnodup := hp.fields node (List.mem_of_getElem? hs)
    exact ⟨Catalog.find?_of_mem hnodup (List.mem_of_getElem? hf),
      Catalog.slot?_of_getElem? hnodup hf⟩
  · intro slot place node field argument hs hf ha
    obtain ⟨declared, _, rfl⟩ := hmade hs
    obtain ⟨inner, _, rfl⟩ := exists_of_getElem?_mapIdx hf
    obtain ⟨source, _, rfl⟩ := List.mem_map.mp ha
    rfl

/-! ## Reading by identity -/

/-- The node in a position, without a check that there is one. -/
def nodeAt? (graph : Graph) (slot : Nat) : Option Node :=
  graph.nodes[slot]?

/-- The field of an identity, without a check that the identity belongs to the graph. -/
def fieldAt? (graph : Graph) (id : FieldId) : Option Field :=
  (graph.nodeAt? id.node).bind (·.fields[id.field]?)

namespace Indexed

variable {graph : Graph} (h : graph.Indexed)
include h

/-- A node stands in the position that it records. -/
theorem nodeAt?_slot {node : Node} (hn : node ∈ graph.nodes) :
    graph.nodeAt? node.slot = some node := by
  obtain ⟨slot, hs⟩ := List.mem_iff_getElem?.mp hn
  rw [nodeAt?, (h.node hs).2, hs]

/-- A node is found under its name. -/
theorem node?_name {node : Node} (hn : node ∈ graph.nodes) : graph.node? node.name = some node := by
  obtain ⟨slot, hs⟩ := List.mem_iff_getElem?.mp hn
  exact (h.nodeKey hs).1

/-- A name leads to the position that the node of the name records. -/
theorem slot?_eq (name : String) :
    Catalog.slot? name graph.nodes = (graph.node? name).map Node.slot := by
  cases hf : graph.node? name with
  | none =>
    have hn : ∀ node ∈ graph.nodes, (Named.name node == name) = false := by
      intro node hn
      simpa using List.find?_eq_none.mp hf node hn
    exact List.findIdx?_eq_none_iff.mpr hn
  | some node =>
    obtain ⟨slot, hs⟩ := List.mem_iff_getElem?.mp (Catalog.mem_of_find? hf)
    have hname : node.name = name := Catalog.name_of_find? hf
    rw [← hname, (h.nodeKey hs).2, Option.map_some, (h.node hs).2]

/-- The identity of a field leads to its node and to the field. -/
theorem reads_field {node : Node} (hn : node ∈ graph.nodes) {field : Field}
    (hf : field ∈ node.fields) :
    graph.ownerOf? field = some node ∧ graph.fieldAt? field.id = some field ∧
      graph.field? field.id = some field := by
  obtain ⟨slot, hs⟩ := List.mem_iff_getElem?.mp hn
  obtain ⟨place, hp⟩ := List.mem_iff_getElem?.mp hf
  rw [ownerOf?, fieldAt?, nodeAt?, field?, (h.field hs hp).1]
  simp only [hs, hp, Option.bind_some, if_true, and_self]

/-- No two nodes record one position. -/
theorem nodup_slots : (graph.nodes.map Node.slot).Nodup := by
  have hslots : graph.nodes.map Node.slot = List.range graph.nodes.length := by
    apply List.ext_getElem
    · simp
    · intro slot hs _
      rw [List.length_map] at hs
      rw [List.getElem_map, List.getElem_range, (h.node (List.getElem?_eq_getElem hs)).2]
  rw [hslots]
  exact List.nodup_range

/-- No two fields of a node have one identity. -/
theorem nodup_ids {node : Node} (hn : node ∈ graph.nodes) : (node.fields.map Field.id).Nodup := by
  obtain ⟨slot, hs⟩ := List.mem_iff_getElem?.mp hn
  have hplaces : (node.fields.map Field.id).map FieldId.field =
      List.range node.fields.length := by
    rw [List.map_map]
    apply List.ext_getElem
    · simp
    · intro place hp _
      rw [List.length_map] at hp
      rw [List.getElem_map, List.getElem_range, Function.comp_apply,
        (h.field hs (List.getElem?_eq_getElem hp)).1]
  refine .of_map FieldId.field ?_
  rw [hplaces]
  exact List.nodup_range

/-- No two fields of the graph have one identity. -/
theorem nodup_fields : (graph.fields.map Field.id).Nodup := by
  rw [fields, List.map_flatMap, List.nodup_flatMap]
  refine ⟨fun node hn => h.nodup_ids hn, ?_⟩
  have hslots : graph.nodes.Pairwise fun node other => node.slot ≠ other.slot :=
    List.pairwise_map.mp h.nodup_slots
  refine hslots.imp_of_mem ?_
  intro node other hn ho hne id hi hj
  obtain ⟨field, hf, rfl⟩ := List.mem_map.mp hi
  obtain ⟨twin, ht, hid⟩ := List.mem_map.mp hj
  have howner : some node = some other := by
    rw [← (h.reads_field hn hf).1, ← (h.reads_field ho ht).1, ownerOf?, ownerOf?, hid]
  exact hne (congrArg Node.slot (Option.some.inj howner))

end Indexed

end Graph

end QuerySurface.Schema
