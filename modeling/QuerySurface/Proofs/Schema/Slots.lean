import QuerySurface.Proofs.Schema.Relocation

/-!
# Reading by recorded positions

The interfaces and the members of a node are resolved to positions, and an overridden field to an
identity. Both are read later without a check whether anything stands there. In a graph whose
records of places are true something always does, and it is what was resolved.
-/

namespace QuerySurface.Schema

namespace Graph

/-! ## Positions of names -/

/-- Takes the position of a name in behind the others, unless it is the node's own, that of a node
of another kind, or there already. -/
def takeSlot (graph : Graph) (own : Nat) (kind : Kind) (slots : List Nat) (name : String) :
    List Nat :=
  match Catalog.slot? name graph.nodes with
  | none => slots
  | some slot =>
    if slot = own ∨ (graph.nodeAt? slot).map Node.kind ≠ some kind ∨ slot ∈ slots then slots
    else slots ++ [slot]

/-- The positions of names, taken in one after the other. -/
def slotsOf (graph : Graph) (own : Nat) (kind : Kind) (names : List String) : List Nat :=
  names.foldl (graph.takeSlot own kind) []

/-- One more name resolves to one more node, if it is new, the name of another node, and the kind
fits. -/
theorem resolve_concat (graph : Graph) (node : Node) (kind : Kind) (names : List String)
    (name : String) :
    graph.resolve node kind (names ++ [name]) =
      graph.resolve node kind names ++
        if name ∈ names ∨ name = node.name then []
        else ((graph.node? name).filter (·.kind == kind)).toList := by
  rw [resolve, resolve, Catalog.eraseDups_concat]
  by_cases hm : name ∈ names
  · simp [hm]
  · rw [if_neg hm, List.filter_append, List.filterMap_append]
    by_cases hn : name = node.name
    · simp [hn]
    · cases hf : (graph.node? name).filter (·.kind == kind) <;> simp [hm, hn, hf]

namespace Indexed

variable {graph : Graph} (h : graph.Indexed)
include h

/-- Nodes of one position are one node. -/
theorem eq_of_slot_eq {node other : Node} (hn : node ∈ graph.nodes) (ho : other ∈ graph.nodes)
    (hs : node.slot = other.slot) : node = other := by
  have hat := h.nodeAt?_slot hn
  rw [hs, h.nodeAt?_slot ho] at hat
  exact (Option.some.inj hat).symm

/-- A name leads to the position of a node exactly if it is the name of the node. -/
theorem slot_eq_iff {node other : Node} {name : String} (hn : node ∈ graph.nodes)
    (hf : graph.node? name = some other) : other.slot = node.slot ↔ name = node.name := by
  constructor
  · intro hs
    have hname : other.name = name := Catalog.name_of_find? hf
    rw [← hname, h.eq_of_slot_eq (Catalog.mem_of_find? hf) hn hs]
  · intro he
    have hself := (h.node?_name hn).symm.trans (he ▸ hf)
    rw [Option.some.inj hself]

/-- The position of a name is among those of the resolved nodes exactly if the name was resolved
already. -/
theorem slot_mem_resolve_iff {node other : Node} {kind : Kind} {names : List String} {name : String}
    (hf : graph.node? name = some other) :
    other.slot ∈ (graph.resolve node kind names).map Node.slot ↔
      name ∈ names ∧ name ≠ node.name ∧ other.kind = kind := by
  constructor
  · intro hm
    obtain ⟨target, ht, hs⟩ := List.mem_map.mp hm
    obtain ⟨word, hw, hne, hword, hk⟩ := mem_resolve_iff.mp ht
    obtain rfl := h.eq_of_slot_eq (Catalog.mem_of_find? hword) (Catalog.mem_of_find? hf) hs
    have hsame : word = name :=
      (Catalog.name_of_find? hword).symm.trans (Catalog.name_of_find? hf)
    exact ⟨hsame ▸ hw, hsame ▸ hne, hk⟩
  · rintro ⟨hm, hne, hk⟩
    exact List.mem_map_of_mem (mem_resolve_iff.mpr ⟨name, hm, hne, hf, hk⟩)

/-- Taking the position of one more name in comes to the same as resolving one more name. -/
theorem takeSlot_resolve {node : Node} (hn : node ∈ graph.nodes) (kind : Kind)
    (names : List String) (name : String) :
    graph.takeSlot node.slot kind ((graph.resolve node kind names).map Node.slot) name =
      (graph.resolve node kind (names ++ [name])).map Node.slot := by
  rw [resolve_concat, takeSlot, h.slot?_eq]
  cases hf : graph.node? name with
  | none => simp
  | some other =>
    simp only [Option.map_some, h.nodeAt?_slot (Catalog.mem_of_find? hf), h.slot_eq_iff hn hf,
      h.slot_mem_resolve_iff hf, ne_eq, Option.some.injEq]
    by_cases he : name = node.name
    · simp [he]
    · by_cases hk : other.kind = kind
      · by_cases hm : name ∈ names <;> simp [he, hk, hm, Option.filter]
      · simp [he, hk, Option.filter]

/-- The positions that are taken in are those of the resolved nodes. -/
theorem slotsOf_eq {node : Node} (hn : node ∈ graph.nodes) (kind : Kind) (names : List String) :
    graph.slotsOf node.slot kind names = (graph.resolve node kind names).map Node.slot := by
  induction names using List.reverseRecOn with
  | nil => rfl
  | append_singleton front name ih =>
    rw [slotsOf, List.foldl_concat, ← slotsOf, ih, h.takeSlot_resolve hn]

/-- Reading the positions that were taken in yields the resolved nodes. -/
theorem nodeAt?_slotsOf {node : Node} (hn : node ∈ graph.nodes) (kind : Kind)
    (names : List String) :
    (graph.slotsOf node.slot kind names).map graph.nodeAt? =
      (graph.resolve node kind names).map some := by
  rw [h.slotsOf_eq hn, List.map_map]
  exact List.map_congr_left fun target ht => h.nodeAt?_slot (mem_resolve ht).1

end Indexed

/-- Taking a name in adds no position but its own. -/
theorem mem_takeSlot {graph : Graph} {own slot : Nat} {kind : Kind} {slots : List Nat}
    {name : String} (h : slot ∈ graph.takeSlot own kind slots name) :
    slot ∈ slots ∨ Catalog.slot? name graph.nodes = some slot := by
  rw [takeSlot] at h
  split at h
  · exact .inl h
  · rename_i found hfound
    split at h
    · exact .inl h
    · rcases List.mem_append.mp h with hm | hm
      · exact .inl hm
      · exact .inr (List.mem_singleton.mp hm ▸ hfound)

/-- What is taken in are positions of nodes, whatever names are given. -/
theorem lt_of_mem_slotsOf {graph : Graph} {own : Nat} {kind : Kind} {names : List String}
    {slot : Nat} (h : slot ∈ graph.slotsOf own kind names) : slot < graph.nodes.length := by
  induction names using List.reverseRecOn with
  | nil => cases h
  | append_singleton front name ih =>
    rw [slotsOf, List.foldl_concat, ← slotsOf] at h
    rcases mem_takeSlot h with hm | hfound
    · exact ih hm
    · exact (List.findIdx?_eq_some_iff_getElem.mp hfound).1

/-! ## What is reached without a check -/

/-- Whatever a graph refers to by position is there. -/
structure Reaches (graph : Graph) : Prop where
  /-- The identity of a field leads to the field. -/
  field : ∀ node ∈ graph.nodes, ∀ field ∈ node.fields,
    graph.field? field.id = some field ∧ graph.fieldAt? field.id = some field
  /-- The identity of a field leads to the node that has the field. -/
  owner : ∀ node ∈ graph.nodes, ∀ field ∈ node.fields, graph.ownerOf? field = some node
  /-- No two fields have one identity. -/
  distinct : (graph.fields.map Field.id).Nodup
  /-- Positions that names are resolved to are in range. -/
  inRange : ∀ own kind names, ∀ slot ∈ graph.slotsOf own kind names, slot < graph.nodes.length
  /-- The interfaces of a node stand in the positions that they are resolved to. -/
  implements : ∀ node ∈ graph.nodes,
    (graph.slotsOf node.slot .interface node.interfaces).map graph.nodeAt? =
      (graph.implements node).map some
  /-- The members of a union stand in the positions that they are resolved to. -/
  unionMembers : ∀ node ∈ graph.nodes,
    (graph.slotsOf node.slot .object node.members).map graph.nodeAt? =
      (graph.unionMembers node).map some
  /-- The identity of an overridden field leads to that field. -/
  overridden : ∀ field ∈ graph.fields, ∀ next, graph.overridden? field = some next →
    graph.fieldAt? next.id = some next
  /-- The identity of a field on a chain leads to that field. -/
  chain : ∀ field ∈ graph.fields, ∀ other ∈ graph.chain field,
    graph.fieldAt? other.id = some other
  /-- The identity that an argument has leads to the field that takes the argument. -/
  argument : ∀ field ∈ graph.fields, ∀ argument ∈ field.arguments,
    graph.fieldAt? argument.field = some field

/-- If what a graph records of places is true, everything is reached. -/
theorem Indexed.reaches {graph : Graph} (h : graph.Indexed) (hp : graph.Placed) :
    graph.Reaches := by
  have hreads : ∀ field ∈ graph.fields, graph.fieldAt? field.id = some field := by
    intro field hf
    obtain ⟨node, hn, hm⟩ := mem_fields_iff.mp hf
    exact (h.reads_field hn hm).2.1
  refine
    { field := ?_
      owner := fun node hn field hf => (h.reads_field hn hf).1
      distinct := h.nodup_fields
      inRange := fun _ _ _ _ hs => lt_of_mem_slotsOf hs
      implements := fun node hn => h.nodeAt?_slotsOf hn _ _
      unionMembers := fun node hn => h.nodeAt?_slotsOf hn _ _
      overridden := fun field hf next hnext => hreads next (hp.overridden?_mem hf hnext)
      chain := fun field hf other ho => hreads other (hp.mem_of_mem_chainFor hf ho)
      argument := ?_ }
  · intro node hn field hf
    exact ⟨(h.reads_field hn hf).2.2, (h.reads_field hn hf).2.1⟩
  · intro field hf argument ha
    obtain ⟨node, hn, hm⟩ := mem_fields_iff.mp hf
    obtain ⟨slot, hs⟩ := List.mem_iff_getElem?.mp hn
    obtain ⟨place, hplace⟩ := List.mem_iff_getElem?.mp hm
    rw [h.argument hs hplace ha]
    exact hreads field hf

/-- The identities in a graph that was built, from any steps and with any repetitions. Every node
and every field stands under its own name in the position that it records, and arguments record
the field they belong to; so identities lead back to the fields that have them, no two fields have
one identity, and interfaces, union members and overridden fields are found where they are
resolved to. -/
theorem identities_of_build {id : GraphId} {strictness : Strictness} {steps : List SchemaStep}
    {graph : Graph} (h : Graph.build id strictness steps = .ok graph) :
    graph.id = id ∧ graph.Indexed ∧ graph.Reaches := by
  have hi := indexed_of_build h
  exact ⟨id_of_build h, hi, hi.reaches (placed_of_build h)⟩

end Graph

/-- A schema that declares an interface, its fields and an object again after others came, and
names interfaces and members more than once. -/
def renewedSteps : List SchemaStep :=
  [ .node "String" .scalar [],
    .node "Named" .interface [.field "label" ⟨"String", false, true⟩ false false []],
    .node "Dog" .object [.implements "Named"],
    .node "Pet" .union [.member "Dog", .member "Named", .member "Dog", .member "Pet"],
    .node "Named" .interface
      [ .implements "Named",
        .field "name" ⟨"String", false, true⟩ false false [.comment "old"],
        .field "label" ⟨"String", false, true⟩ false false [],
        .field "name" ⟨"String", false, true⟩ false false
          [.argument "locale" ⟨"String", false, true⟩ false []] ],
    .node "Dog" .object
      [ .implements "Named", .implements "Pet", .implements "Named",
        .field "name" ⟨"String", false, true⟩ false false [] ] ]

/-- The schema with renewed declarations can be built, and the law holds of its graph. -/
theorem identities_renewedSteps :
    ∃ graph, Graph.build ⟨0⟩ .lenient renewedSteps = .ok graph ∧
      graph.id = ⟨0⟩ ∧ graph.Indexed ∧ graph.Reaches := by
  obtain ⟨graph, h⟩ : ∃ graph, Graph.build ⟨0⟩ .lenient renewedSteps = .ok graph := ⟨_, rfl⟩
  exact ⟨graph, h, Graph.identities_of_build h⟩

end QuerySurface.Schema
