import QuerySurface.Plan.Derive
import QuerySurface.Proofs.Plan.Pruning

/-!
# What is derived

An abstraction is known by its label: the node it is made for, its family, and the field if it is
made for one. The labels of a graph can be read off the graph alone. A layout that passes its
check always yields plans, one for each node; they hold the abstractions of the labels of the
graph, each under the name that the decorations give its label, less the families that are
not wanted.
-/

namespace QuerySurface.Plan

open Schema (Graph Node Field Argument TypeRef Kind)

/-! ## Labels -/

/-- The decoration of a family. -/
def Family.decoration (decorations : Layout.Decorations) : Family → Layout.Decoration
  | .entity => decorations.entity
  | .projection => decorations.projection
  | .qualification => decorations.qualification
  | .qualifiedProjection => decorations.qualifiedProjection
  | .selection => decorations.selection
  | .query => decorations.query

/-- What an abstraction is made for. -/
structure Label where
  /-- Name of the node. -/
  node : String
  /-- The family. -/
  family : Family
  /-- Name of the field, for selections and queries. -/
  field : Option String
  deriving DecidableEq, Repr

namespace Label

/-- What is decorated: the node, or the node and the field joined. -/
def stem (label : Label) : String :=
  match label.field with
  | none => label.node
  | some field => Layout.joined label.node field

/-- The name of the abstraction. -/
def name (decorations : Layout.Decorations) (label : Label) : String :=
  (label.family.decoration decorations).apply label.stem

/-- The label of a family of a node. -/
def ofNode (family : Family) (node : Node) : Label :=
  ⟨node.name, family, none⟩

/-- The label of a family of a field. -/
def ofField (family : Family) (node : Node) (field : Field) : Label :=
  ⟨node.name, family, some field.name⟩

end Label

/-- The label of an abstraction in the plan of a node. -/
def Abstraction.label (node : String) (abstraction : Abstraction) : Label :=
  ⟨node, abstraction.family, abstraction.field⟩

/-- The families that every node of a kind has. -/
def nodeFamilies : Kind → List Family
  | .scalar | .enum | .input => []
  | .query | .mutation | .object => [.entity, .projection]
  | .interface | .union => [.entity, .projection, .qualification, .qualifiedProjection]

/-- The fields of a node that have a selection and a query. -/
def selectedFields (graph : Graph) (node : Node) : List Field :=
  if node.kind.hasEntity then node.fields.filter graph.isSelection else []

/-- The labels of a node. -/
def labelsOf (graph : Graph) (node : Node) : List Label :=
  (nodeFamilies node.kind).map (Label.ofNode · node) ++
    (selectedFields graph node).flatMap fun field =>
      [Label.ofField .selection node field, Label.ofField .query node field]

/-- Whether a label belongs to a node. -/
theorem mem_labelsOf_iff {graph : Graph} {node : Node} {label : Label} :
    label ∈ labelsOf graph node ↔
      (∃ family ∈ nodeFamilies node.kind, label = Label.ofNode family node) ∨
        ∃ field ∈ selectedFields graph node,
          label = Label.ofField .selection node field ∨
            label = Label.ofField .query node field := by
  simp [labelsOf, eq_comm]

/-- The labels of a graph. -/
def labels (graph : Graph) : List Label :=
  graph.nodes.flatMap (labelsOf graph)

/-! ## Plans without failures -/

namespace Engine

variable (engine : Engine)

/-- The abstractions of a node. -/
def abstractions (node : Node) : List Abstraction :=
  match node.kind with
  | .scalar | .enum | .input => []
  | .query | .mutation | .object =>
    [engine.entity node, engine.projection node] ++ engine.selections node
  | .interface | .union =>
    [ engine.entity node, engine.projection node, engine.qualificationOf node,
      engine.qualifiedProjectionOf node ] ++ engine.selections node

/-- The plan that is derived for a node. -/
def derived (node : Node) : NodePlan :=
  ⟨node.name, node.kind, engine.abstractions node⟩

/-- Deriving a plan never fails: qualifications are asked of interfaces and unions only. -/
theorem plan_eq (node : Node) : engine.plan node = .ok (engine.derived node) := by
  cases h : node.kind <;>
    simp [plan, derived, abstractions, qualification, qualifiedProjection, h, Kind.isPolymorphic,
      pure, Except.pure, bind, Except.bind]

/-- Plans of nodes, in order. -/
theorem plansOf_eq (nodes : List Node) :
    engine.plansOf nodes = .ok (nodes.map engine.derived) := by
  induction nodes with
  | nil => rfl
  | cons node rest ih =>
    rw [plansOf, plan_eq, ih]
    rfl

/-- Whether an abstraction belongs to a node. -/
theorem mem_abstractions_iff {node : Node} {abstraction : Abstraction} :
    abstraction ∈ engine.abstractions node ↔
      node.kind.hasEntity = true ∧
        (abstraction = engine.entity node ∨ abstraction = engine.projection node ∨
          (node.kind.isPolymorphic = true ∧
            (abstraction = engine.qualificationOf node ∨
              abstraction = engine.qualifiedProjectionOf node)) ∨
          ∃ field ∈ node.fields, engine.graph.isSelection field = true ∧
            (abstraction = engine.selection node field ∨
              abstraction = engine.query node field)) := by
  have hs : abstraction ∈ engine.selections node ↔
      ∃ field ∈ node.fields, engine.graph.isSelection field = true ∧
        (abstraction = engine.selection node field ∨ abstraction = engine.query node field) := by
    simp [selections, and_assoc]
  rw [← hs]
  cases h : node.kind <;>
    simp [abstractions, h, Kind.hasEntity, Kind.isPolymorphic, or_assoc]

/-- The labels of the abstractions of a node are those that the graph says. -/
theorem map_label_abstractions (node : Node) :
    (engine.abstractions node).map (Abstraction.label node.name) =
      labelsOf engine.graph node := by
  have hs : (engine.selections node).map (Abstraction.label node.name) =
      (node.fields.filter engine.graph.isSelection).flatMap fun field =>
        [Label.ofField .selection node field, Label.ofField .query node field] := by
    rw [selections, List.map_flatMap]
    rfl
  cases h : node.kind <;>
    simp only [abstractions, labelsOf, nodeFamilies, selectedFields, h, hs, Kind.hasEntity, if_true,
      Bool.false_eq_true, if_false, List.map_append] <;>
    rfl

/-- An abstraction has the name of its label. -/
theorem name_of_mem_abstractions {node : Node} {abstraction : Abstraction}
    (h : abstraction ∈ engine.abstractions node) :
    abstraction.name = (abstraction.label node.name).name engine.layout.decorations := by
  obtain ⟨_, rfl | rfl | ⟨_, rfl | rfl⟩ | ⟨field, _, _, rfl | rfl⟩⟩ :=
    engine.mem_abstractions_iff.mp h <;> rfl

end Engine

/-! ## Wanted plans -/

/-- The plans that a layout wants of a graph. -/
def wantedPlans (graph : Graph) (layout : Layout) : List NodePlan :=
  prune layout.families (graph.nodes.map (Engine.mk graph layout).derived)

/-- The names of the abstractions of a graph that a layout does not want. -/
def unwantedNames (graph : Graph) (layout : Layout) : List String :=
  removedNames layout.families (graph.nodes.map (Engine.mk graph layout).derived)

/-- The plan that a layout wants of a node. -/
def wantedPlan (graph : Graph) (layout : Layout) (node : Node) : NodePlan :=
  ((Engine.mk graph layout).derived node).pruned layout.families (unwantedNames graph layout)

/-- The wanted plans are those of the nodes, in order. -/
theorem wantedPlans_eq_map (graph : Graph) (layout : Layout) :
    wantedPlans graph layout = graph.nodes.map (wantedPlan graph layout) := by
  rw [wantedPlans, prune, List.map_map]
  rfl

/-- A layout that passes its check yields the plans that it wants. -/
theorem generate_eq {graph : Graph} {layout : Layout} (h : layout.check = .ok ()) :
    generate graph layout = .ok (wantedPlans graph layout) := by
  rw [generate, h, Engine.plans, Engine.plansOf_eq]
  rfl

section Labelled

variable {graph : Graph} {layout : Layout}

/-- A label of a graph has an abstraction in the plan of one of its nodes. -/
theorem exists_of_mem_labels (layout : Layout) {label : Label} (h : label ∈ labels graph) :
    ∃ node ∈ graph.nodes, ∃ abstraction ∈ (Engine.mk graph layout).abstractions node,
      abstraction.label node.name = label := by
  obtain ⟨node, hn, hl⟩ := List.mem_flatMap.mp h
  have hm := (Engine.mk graph layout).map_label_abstractions node
  rw [← hm] at hl
  obtain ⟨abstraction, ha, hl⟩ := List.mem_map.mp hl
  exact ⟨node, hn, abstraction, ha, hl⟩

/-- The abstractions of a node of a graph have labels of the graph. -/
theorem label_mem_labels {node : Node} (hn : node ∈ graph.nodes) {abstraction : Abstraction}
    (ha : abstraction ∈ (Engine.mk graph layout).abstractions node) :
    abstraction.label node.name ∈ labels graph := by
  have hm := (Engine.mk graph layout).map_label_abstractions node
  exact List.mem_flatMap.mpr ⟨node, hn, hm ▸ List.mem_map_of_mem ha⟩

/-- The unwanted names among derived plans are those of the labels that are not wanted. -/
theorem unwanted_derived_iff {families : Layout.Families} {name : String} :
    Unwanted families (graph.nodes.map (Engine.mk graph layout).derived) name ↔
      ∃ label ∈ labels graph, label.family.isEnabled families = false ∧
        label.name layout.decorations = name := by
  constructor
  · rintro ⟨plan, hp, abstraction, ha, hf, rfl⟩
    obtain ⟨node, hn, rfl⟩ := List.mem_map.mp hp
    refine ⟨abstraction.label node.name, label_mem_labels hn ha, hf, ?_⟩
    exact (Engine.name_of_mem_abstractions _ ha).symm
  · rintro ⟨label, hl, hf, rfl⟩
    obtain ⟨node, hn, abstraction, ha, rfl⟩ := exists_of_mem_labels layout hl
    refine ⟨_, List.mem_map_of_mem hn, abstraction, ha, hf, ?_⟩
    exact Engine.name_of_mem_abstractions _ ha

/-- The names that go are those of the labels that are not wanted. -/
theorem mem_unwantedNames_iff {name : String} :
    name ∈ unwantedNames graph layout ↔
      ∃ label ∈ labels graph, label.family.isEnabled layout.families = false ∧
        label.name layout.decorations = name :=
  mem_removedNames_iff.trans unwanted_derived_iff

end Labelled

/-- The labels of a graph that a layout wants. -/
def wantedLabels (graph : Graph) (layout : Layout) : List Label :=
  (labels graph).filter (·.family.isEnabled layout.families)

/-- The names of all abstractions of some plans, in order. -/
def abstractionNames (plans : List NodePlan) : List String :=
  (plans.flatMap NodePlan.abstractions).map Abstraction.name

/-- The abstractions in the wanted plan of a node are those of its wanted labels. -/
theorem map_label_wantedPlan (graph : Graph) (layout : Layout) (node : Node) :
    (wantedPlan graph layout node).abstractions.map (Abstraction.label node.name) =
      (labelsOf graph node).filter (·.family.isEnabled layout.families) := by
  have hl : labelsOf graph node =
      ((Engine.mk graph layout).abstractions node).map (Abstraction.label node.name) :=
    ((Engine.mk graph layout).map_label_abstractions node).symm
  rw [hl, List.filter_map, wantedPlan, NodePlan.pruned, List.map_map]
  rfl

/-- An abstraction that is wanted has the name of its label. -/
theorem name_of_mem_wantedPlan {graph : Graph} {layout : Layout} {node : Node}
    {abstraction : Abstraction} (h : abstraction ∈ (wantedPlan graph layout node).abstractions) :
    abstraction.name = (abstraction.label node.name).name layout.decorations := by
  obtain ⟨whole, hw, rfl⟩ := List.mem_map.mp h
  have hn := (Engine.mk graph layout).name_of_mem_abstractions (List.mem_filter.mp hw).1
  exact hn

/-- The names in the wanted plans of a graph are those of its wanted labels. -/
theorem abstractionNames_wantedPlans (graph : Graph) (layout : Layout) :
    abstractionNames (wantedPlans graph layout) =
      (wantedLabels graph layout).map (Label.name layout.decorations) := by
  rw [abstractionNames, wantedPlans_eq_map, wantedLabels, labels, List.flatMap_map,
    List.map_flatMap, List.filter_flatMap, List.map_flatMap]
  congr 1
  funext node
  rw [← map_label_wantedPlan graph layout node, List.map_map]
  apply List.map_congr_left
  intro abstraction ha
  exact name_of_mem_wantedPlan ha

/-! ## Every family wanted -/

/-- If every family is wanted, none is missing. -/
theorem Family.isEnabled_all (family : Family) : family.isEnabled .all = true := by
  cases family <;> rfl

/-- If every family is wanted, no name goes. -/
theorem unwantedNames_of_all (graph : Graph) {layout : Layout} (h : layout.families = .all) :
    unwantedNames graph layout = [] := by
  rw [List.eq_nil_iff_forall_not_mem]
  intro name hm
  obtain ⟨label, _, hf, _⟩ := mem_unwantedNames_iff.mp hm
  rw [h, label.family.isEnabled_all] at hf
  cases hf

/-- If every family is wanted, the plans are those that were derived. -/
theorem wantedPlans_of_all (graph : Graph) {layout : Layout} (h : layout.families = .all) :
    wantedPlans graph layout = graph.nodes.map (Engine.mk graph layout).derived :=
  prune_eq_self (unwantedNames_of_all graph h)

end QuerySurface.Plan
