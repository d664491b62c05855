import QuerySurface.Proofs.Catalog.LastWins
import QuerySurface.Proofs.Plan.Values
import QuerySurface.Proofs.Schema.Hierarchy
import QuerySurface.Schema.Draft
import Mathlib.Data.List.Forall2

/-!
# References between plans

Abstractions refer to each other by name: as supertypes, as what a parameter configures, and as
the entity of a value. The names are made where the reference stands and made again where the
abstraction stands. Here it is said which abstraction each reference is for, and that the plans
of a layout hold an abstraction of that very label under the name referred to. Pruning may take
a reference away, but it leaves none behind that has lost its abstraction, also where an
unwanted abstraction has the name of a wanted one.
-/

namespace QuerySurface.Plan

open Schema (Graph Node Field Argument TypeRef Kind SchemaStep mem_resolve mem_possibleObjects)

/-! ## What references are for -/

/-- A name is that of the abstraction of a label, and some plans hold this abstraction. -/
def Label.ResolvesIn (plans : List NodePlan) (label : Label) (name : String) : Prop :=
  ∃ plan ∈ plans, ∃ abstraction ∈ plan.abstractions,
    abstraction.label plan.node = label ∧ abstraction.name = name

/-- What configures a nested selection: the qualified projection of an interface or union, the
projection of anything else. -/
def nestedLabel (target : Node) : Label :=
  Label.ofNode (if target.kind.isPolymorphic then .qualifiedProjection else .projection) target

/-- The supertypes that an abstraction of a node is to have, by its family and field, in order. -/
inductive Supertypes (graph : Graph) (node : Node) :
    Family → Option String → List Label → Prop where
  /-- An entity extends the entities of the interfaces that its node implements. -/
  | entity :
      Supertypes graph node .entity none ((graph.implements node).map (Label.ofNode .entity))
  /-- A projection extends the projections of the interfaces that its node implements. -/
  | projection :
      Supertypes graph node .projection none
        ((graph.implements node).map (Label.ofNode .projection))
  /-- A qualification extends nothing. -/
  | qualification : Supertypes graph node .qualification none []
  /-- A qualified projection extends the projection and the qualification of its node. -/
  | qualifiedProjection :
      Supertypes graph node .qualifiedProjection none
        [Label.ofNode .projection node, Label.ofNode .qualification node]
  /-- A selection extends nothing. -/
  | selection {field : Field} (mem : field ∈ node.fields) :
      Supertypes graph node .selection (some field.name) []
  /-- A query extends the selection of its field, then what selects the value of the field. -/
  | query {field : Field} {target : Node} (mem : field ∈ node.fields)
      (refers : graph.referenced? field.type = some target) :
      Supertypes graph node .query (some field.name)
        [Label.ofField .selection node field, nestedLabel target]

/-- What the parameters of a method of a node are to configure, by the family of the abstraction
that has the method, in order. -/
inductive Configures (graph : Graph) (layout : Layout) (node : Node) :
    Family → Method → List Label → Prop where
  /-- The selector of a field whose value has no projection configures nothing. -/
  | leaf {field : Field} {method : Method} (mem : field ∈ node.fields)
      (name : method.name = field.name) (bare : graph.hasProjection field.type = false) :
      Configures graph layout node .projection method []
  /-- The selector of a field that has a query configures this query. -/
  | query {field : Field} {method : Method} (mem : field ∈ node.fields)
      (name : method.name = field.name) (selected : graph.isSelection field = true) :
      Configures graph layout node .projection method [Label.ofField .query node field]
  /-- Any other selector configures what selects the value of its field. -/
  | nested {field : Field} {method : Method} {target : Node} (mem : field ∈ node.fields)
      (name : method.name = field.name) (selected : graph.isSelection field = false)
      (refers : graph.referenced? field.type = some target)
      (projected : target.kind.hasProjection = true) :
      Configures graph layout node .projection method [nestedLabel target]
  /-- A member that narrows to a subtype configures the projection of the subtype. -/
  | narrowing {subtype : Node} {method : Method} (mem : subtype ∈ graph.possibleObjects node)
      (name : method.name = layout.decorations.onSubtypeName subtype.name) :
      Configures graph layout node .qualification method [Label.ofNode .projection subtype]

/-- The names that the parameters of a method configure, in order. -/
def Method.targets (method : Method) : List String :=
  method.parameters.filterMap (·.type.target?)

/-- Whether no unwanted abstraction has the name of a label. -/
def Label.isFree (graph : Graph) (layout : Layout) (label : Label) : Bool :=
  (labels graph).all fun other =>
    other.family.isEnabled layout.families ||
      other.name layout.decorations != label.name layout.decorations

/-- In the plan of a node every reference leads to the abstraction that it is for. -/
structure NodePlan.Closed (graph : Graph) (layout : Layout) (plans : List NodePlan)
    (node : Node) (plan : NodePlan) : Prop where
  /-- The plan has the name of the node. -/
  node_eq : plan.node = node.name
  /-- The plan has the kind of the node. -/
  kind_eq : plan.kind = node.kind
  /-- The abstractions are those of the wanted labels of the node. -/
  labels_eq : plan.abstractions.map (Abstraction.label node.name) =
    (labelsOf graph node).filter (·.family.isEnabled layout.families)
  /-- The supertypes of an abstraction are those that it is to have, less the names that an
  unwanted abstraction has; all of them are there. -/
  supertypes : ∀ abstraction ∈ plan.abstractions, ∃ expected,
    Supertypes graph node abstraction.family abstraction.field expected ∧
      List.Forall₂ (Label.ResolvesIn plans) (expected.filter (Label.isFree graph layout))
        abstraction.supertypes
  /-- What the parameters of a method configure is what they are to configure, less the names that
  an unwanted abstraction has; all of it is there. -/
  targets : ∀ abstraction ∈ plan.abstractions, ∀ method, .method method ∈ abstraction.members →
    ∃ expected, Configures graph layout node abstraction.family method expected ∧
      List.Forall₂ (Label.ResolvesIn plans) (expected.filter (Label.isFree graph layout))
        method.targets
  /-- If entities are wanted, the entity of every value is there. -/
  values : Family.entity.isEnabled layout.families = true →
    ∀ abstraction ∈ plan.abstractions, ∀ member ∈ abstraction.members,
      ∀ name list nullable, .value .entity name list nullable ∈ member.types →
        ∃ label : Label, label.family = .entity ∧ label.ResolvesIn plans name

/-! ## Labels that are there -/

/-- The label of a family that a node has. -/
theorem ofNode_mem_labels {graph : Graph} {node : Node} {family : Family}
    (hn : node ∈ graph.nodes) (hf : family ∈ nodeFamilies node.kind) :
    Label.ofNode family node ∈ labels graph := by
  have hl : Label.ofNode family node ∈ labelsOf graph node :=
    mem_labelsOf_iff.mpr (.inl ⟨family, hf, rfl⟩)
  exact List.mem_flatMap.mpr ⟨node, hn, hl⟩

/-- The labels of a field that has a selection and a query. -/
theorem ofField_mem_labels {graph : Graph} {node : Node} {field : Field} {family : Family}
    (hn : node ∈ graph.nodes) (hk : node.kind.hasEntity = true) (hm : field ∈ node.fields)
    (hs : graph.isSelection field = true) (hf : family = .selection ∨ family = .query) :
    Label.ofField family node field ∈ labels graph := by
  have hsel : field ∈ selectedFields graph node := by
    rw [selectedFields, if_pos hk]
    exact List.mem_filter.mpr ⟨hm, hs⟩
  have hl : Label.ofField family node field ∈ labelsOf graph node := by
    refine mem_labelsOf_iff.mpr (.inr ⟨field, hsel, ?_⟩)
    rcases hf with rfl | rfl
    · exact .inl rfl
    · exact .inr rfl
  exact List.mem_flatMap.mpr ⟨node, hn, hl⟩

/-- A node that values are selected of has a label for nested selections. -/
theorem nestedLabel_mem_labels {graph : Graph} {target : Node} (hn : target ∈ graph.nodes)
    (hk : target.kind.hasProjection = true) : nestedLabel target ∈ labels graph := by
  apply ofNode_mem_labels hn
  cases h : target.kind <;> simp_all [Kind.hasProjection, Kind.isPolymorphic, nodeFamilies]

/-- The node that a type with a projection refers to. -/
theorem exists_of_hasProjection {graph : Graph} {type : TypeRef}
    (h : graph.hasProjection type = true) :
    ∃ target, graph.referenced? type = some target ∧ target ∈ graph.nodes ∧
      target.kind.hasProjection = true := by
  cases ht : graph.referenced? type with
  | none => simp [Graph.hasProjection, ht] at h
  | some target =>
    refine ⟨target, rfl, Catalog.mem_of_find? ht, ?_⟩
    simpa [Graph.hasProjection, ht] using h

/-! ## References as they are derived -/

namespace Engine

variable (engine : Engine)

/-- What configures a nested selection has the name of its label. -/
theorem nestedProjection_eq {type : TypeRef} {target : Node}
    (h : engine.graph.referenced? type = some target) :
    engine.nestedProjection type = (nestedLabel target).name engine.layout.decorations := by
  simp only [nestedProjection, h, Layout.Decorations.nestedName, nestedLabel]
  split <;> rfl

/-- The supertypes of an abstraction are the names of labels that the graph has. -/
theorem supertypes_eq {node : Node} (hn : node ∈ engine.graph.nodes)
    {abstraction : Abstraction} (ha : abstraction ∈ engine.abstractions node) :
    ∃ expected, Supertypes engine.graph node abstraction.family abstraction.field expected ∧
      abstraction.supertypes = expected.map (Label.name engine.layout.decorations) ∧
      ∀ label ∈ expected, label ∈ labels engine.graph := by
  have hinherited : ∀ family, family ∈ nodeFamilies .interface →
      ∀ label ∈ (engine.graph.implements node).map (Label.ofNode family),
        label ∈ labels engine.graph := by
    intro family hf label hl
    obtain ⟨parent, hp, rfl⟩ := List.mem_map.mp hl
    obtain ⟨hpn, hpk⟩ := mem_resolve hp
    exact ofNode_mem_labels hpn (hpk ▸ hf)
  obtain ⟨hk, hcases⟩ := engine.mem_abstractions_iff.mp ha
  rcases hcases with rfl | rfl | ⟨hpoly, rfl | rfl⟩ | ⟨field, hm, hs, rfl | rfl⟩
  · refine ⟨_, .entity, ?_, hinherited .entity (by decide)⟩
    rw [List.map_map]
    rfl
  · refine ⟨_, .projection, ?_, hinherited .projection (by decide)⟩
    rw [List.map_map]
    rfl
  · exact ⟨_, .qualification, rfl, by simp⟩
  · refine ⟨_, .qualifiedProjection, rfl, ?_⟩
    have hfamilies : ∀ family ∈ [Family.projection, .qualification],
        family ∈ nodeFamilies node.kind := by
      cases h : node.kind <;> simp_all [Kind.isPolymorphic, nodeFamilies]
    intro label hl
    rcases List.mem_pair.mp hl with rfl | rfl
    · exact ofNode_mem_labels hn (hfamilies _ (by decide))
    · exact ofNode_mem_labels hn (hfamilies _ (by decide))
  · exact ⟨_, .selection hm, rfl, by simp⟩
  · have hproj : engine.graph.hasProjection field.type = true := (Bool.and_eq_true_iff.mp hs).1
    obtain ⟨target, ht, htn, htk⟩ := exists_of_hasProjection hproj
    refine ⟨_, .query hm ht, ?_, ?_⟩
    · rw [query, nestedProjection_eq engine ht]
      rfl
    · intro label hl
      rcases List.mem_pair.mp hl with rfl | rfl
      · exact ofField_mem_labels hn hk hm hs (.inl rfl)
      · exact nestedLabel_mem_labels htn htk

/-- The methods of a node are the selectors of its projection and the members of its
qualification. -/
theorem method_of_mem {node : Node} {abstraction : Abstraction}
    (ha : abstraction ∈ engine.abstractions node) {method : Method}
    (hm : .method method ∈ abstraction.members) :
    (abstraction.family = .projection ∧
        ∃ field ∈ node.fields, method = engine.selector node field) ∨
      (abstraction.family = .qualification ∧
        ∃ subtype ∈ engine.graph.possibleObjects node, method = engine.narrowing subtype) := by
  obtain ⟨_, rfl | rfl | ⟨_, rfl | rfl⟩ | ⟨field, _, _, rfl | rfl⟩⟩ :=
    engine.mem_abstractions_iff.mp ha
  · simp [entity] at hm
  · obtain ⟨field, hf, he⟩ := List.mem_map.mp hm
    exact .inl ⟨rfl, field, (List.mem_filter.mp hf).1, (Member.method.inj he).symm⟩
  · obtain ⟨subtype, hs, he⟩ := List.mem_map.mp hm
    exact .inr ⟨rfl, subtype, hs, (Member.method.inj he).symm⟩
  · simp [qualifiedProjectionOf] at hm
  · simp [selection] at hm
  · simp [query] at hm

/-- A configurator may be left out. -/
theorem hasDefault_of_target? {node : Node} {abstraction : Abstraction}
    (ha : abstraction ∈ engine.abstractions node) {method : Method}
    (hm : .method method ∈ abstraction.members) {parameter : Parameter}
    (hp : parameter ∈ method.parameters) (ht : parameter.type.target?.isSome = true) :
    parameter.hasDefault = true := by
  rcases engine.method_of_mem ha hm with ⟨_, field, _, rfl⟩ | ⟨_, subtype, _, rfl⟩
  · rcases engine.mem_selectorParameters_iff.mp hp with ⟨_, argument, _, rfl⟩ | ⟨_, rfl⟩
    · rw [argumentParameter, engine.target?_valueType] at ht
      cases ht
    · unfold configurator
      split <;> rfl
  · rw [List.mem_singleton.mp hp]

/-- What the selector of a field configures. -/
theorem targets_selector (node : Node) (field : Field) :
    (engine.selector node field).targets =
      if engine.graph.hasProjection field.type then
        (engine.configurator node field).type.target?.toList
      else [] := by
  have harguments : ∀ hasDefault (arguments : List Argument),
      (arguments.map (engine.argumentParameter hasDefault)).filterMap (·.type.target?) = [] := by
    intro hasDefault arguments
    rw [List.filterMap_map, List.filterMap_eq_nil_iff]
    intro argument _
    exact engine.target?_valueType argument.type
  have hothers : (if engine.graph.isSelection field then []
      else (field.arguments.filter (·.isInitialized)).map
        (engine.argumentParameter true)).filterMap (·.type.target?) = [] := by
    split
    · rfl
    · exact harguments true _
  unfold Method.targets selector selectorParameters
  rw [List.filterMap_append, List.filterMap_append, harguments, hothers, List.nil_append,
    List.nil_append]
  split
  · cases ht : (engine.configurator node field).type.target? <;> simp [ht]
  · rfl

/-- What the parameters of a method configure are the names of labels that the graph has. -/
theorem targets_eq {node : Node} (hn : node ∈ engine.graph.nodes) {abstraction : Abstraction}
    (ha : abstraction ∈ engine.abstractions node) {method : Method}
    (hm : .method method ∈ abstraction.members) :
    ∃ expected, Configures engine.graph engine.layout node abstraction.family method expected ∧
      method.targets = expected.map (Label.name engine.layout.decorations) ∧
      ∀ label ∈ expected, label ∈ labels engine.graph := by
  have hk := (engine.mem_abstractions_iff.mp ha).1
  rcases engine.method_of_mem ha hm with ⟨hf, field, hmem, rfl⟩ | ⟨hf, subtype, hmem, rfl⟩
  · rw [hf, targets_selector]
    cases hproj : engine.graph.hasProjection field.type with
    | false => exact ⟨[], .leaf hmem rfl hproj, rfl, by simp⟩
    | true =>
      rw [if_pos rfl, configurator]
      cases hs : engine.graph.isSelection field with
      | true =>
        refine ⟨_, .query hmem rfl hs, rfl, ?_⟩
        intro label hl
        rw [List.mem_singleton.mp hl]
        exact ofField_mem_labels hn hk hmem hs (.inr rfl)
      | false =>
        obtain ⟨target, hr, htn, htk⟩ := exists_of_hasProjection hproj
        refine ⟨_, .nested hmem rfl hs hr htk, ?_, ?_⟩
        · rw [engine.nestedProjection_eq hr]
          rfl
        · intro label hl
          rw [List.mem_singleton.mp hl]
          exact nestedLabel_mem_labels htn htk
  · obtain ⟨hsn, hsk⟩ := mem_possibleObjects hmem
    have hfam : Family.projection ∈ nodeFamilies subtype.kind := by
      rw [hsk]
      decide
    rw [hf]
    refine ⟨_, .narrowing hmem rfl, rfl, ?_⟩
    intro label hl
    rw [List.mem_singleton.mp hl]
    exact ofNode_mem_labels hsn hfam

/-- The entity of a value is that of a label of the graph. -/
theorem entity_of_valueType {type : TypeRef} {name : String} {list nullable : Bool}
    (h : engine.valueType type = .value .entity name list nullable) :
    ∃ label ∈ labels engine.graph, label.family = .entity ∧
      label.name engine.layout.decorations = name := by
  cases hr : engine.graph.node? type.node with
  | none => simp [valueType, Graph.kindOf?, hr] at h
  | some target =>
    have hn : target ∈ engine.graph.nodes := Catalog.mem_of_find? hr
    have hname : target.name = type.node := Catalog.name_of_find? hr
    have hk : Family.entity ∈ nodeFamilies target.kind ∧
        engine.layout.decorations.entityName type.node = name := by
      cases hk : target.kind <;>
        simp_all [valueType, Graph.kindOf?, nodeFamilies]
    refine ⟨_, ofNode_mem_labels hn hk.1, rfl, ?_⟩
    rw [← hk.2, ← hname]
    rfl

end Engine

/-! ## References that are left -/

section Pruned

variable {graph : Graph} {layout : Layout}

/-- A wanted label of the graph has its abstraction in the wanted plans. -/
theorem Label.resolvesIn_wantedPlans {label : Label} (hl : label ∈ labels graph)
    (hw : label.family.isEnabled layout.families = true) :
    label.ResolvesIn (wantedPlans graph layout) (label.name layout.decorations) := by
  obtain ⟨node, hn, abstraction, ha, rfl⟩ := exists_of_mem_labels layout hl
  have hname := Engine.name_of_mem_abstractions _ ha
  have hp := List.mem_map_of_mem (f := (Engine.mk graph layout).derived) hn
  refine ⟨_, List.mem_map_of_mem hp, _, List.mem_map_of_mem (List.mem_filter.mpr ⟨ha, hw⟩),
    rfl, hname⟩

/-- A label is wanted if no unwanted abstraction has its name. -/
theorem Label.isEnabled_of_isFree {label : Label} (hl : label ∈ labels graph)
    (hf : label.isFree graph layout = true) : label.family.isEnabled layout.families = true := by
  have h := List.all_eq_true.mp hf label hl
  simpa using h

/-- The names that pruning removes are those that are not free. -/
theorem Label.contains_unwantedNames (graph : Graph) (layout : Layout) (label : Label) :
    (unwantedNames graph layout).contains (label.name layout.decorations) =
      !label.isFree graph layout := by
  rw [Bool.eq_iff_iff, List.contains_iff_mem, mem_unwantedNames_iff]
  simp [Label.isFree]

/-- References that stay are those to free labels, and all of these are there. -/
theorem forall₂_resolvesIn (layout : Layout) {expected : List Label}
    (h : ∀ label ∈ expected, label ∈ labels graph) :
    List.Forall₂ (Label.ResolvesIn (wantedPlans graph layout))
      (expected.filter (Label.isFree graph layout))
      ((expected.map (Label.name layout.decorations)).filter fun name =>
        !(unwantedNames graph layout).contains name) := by
  have hfilter : ((fun name => !(unwantedNames graph layout).contains name) ∘
      Label.name layout.decorations) = Label.isFree graph layout := by
    funext label
    rw [Function.comp_apply, Label.contains_unwantedNames, Bool.not_not]
  rw [List.filter_map, hfilter, List.forall₂_map_right_iff, List.forall₂_same]
  intro label hl
  obtain ⟨he, hf⟩ := List.mem_filter.mp hl
  exact Label.resolvesIn_wantedPlans (h label he) (Label.isEnabled_of_isFree (h label he) hf)

/-- Where every configurator may be left out, pruning takes out those whose names go. -/
theorem filterMap_target?_stays {removed : List String} {parameters : List Parameter}
    (h : ∀ parameter ∈ parameters, parameter.type.target?.isSome = true →
      parameter.hasDefault = true) :
    (parameters.filter (Parameter.stays removed)).filterMap (·.type.target?) =
      (parameters.filterMap (·.type.target?)).filter fun name => !removed.contains name := by
  induction parameters with
  | nil => rfl
  | cons parameter rest ih =>
    obtain ⟨hp, hr⟩ := List.forall_mem_cons.mp h
    have ih := ih hr
    cases ht : parameter.type.target? with
    | none => simp [Parameter.stays, ht, ih]
    | some target =>
      have hd := hp (by rw [ht]; rfl)
      cases hc : removed.contains target <;> simp_all [Parameter.stays]

/-- A method that is left is a method without some of its parameters. -/
theorem Member.exists_of_without {removed : List String} {members : List Member} {method : Method}
    (h : .method method ∈ members.map (Member.without removed)) :
    ∃ whole, .method whole ∈ members ∧ method.name = whole.name ∧
      method.parameters = whole.parameters.filter (Parameter.stays removed) := by
  obtain ⟨member, hm, he⟩ := List.mem_map.mp h
  cases member with
  | property property => simp [Member.without] at he
  | method whole =>
    obtain rfl := Member.method.inj he
    exact ⟨whole, hm, rfl, rfl⟩

/-- What a method is to configure depends on its name alone. -/
theorem Configures.congr {node : Node} {family : Family} {whole method : Method}
    {expected : List Label} (h : Configures graph layout node family whole expected)
    (hn : method.name = whole.name) : Configures graph layout node family method expected := by
  cases h with
  | leaf hmem hname hbare => exact .leaf hmem (hn.trans hname) hbare
  | query hmem hname hselected => exact .query hmem (hn.trans hname) hselected
  | nested hmem hname hselected hrefers hprojected =>
    exact .nested hmem (hn.trans hname) hselected hrefers hprojected
  | narrowing hmem hname => exact .narrowing hmem (hn.trans hname)

/-- The wanted plan of a node is closed. -/
theorem closed_wantedPlan {node : Node} (hn : node ∈ graph.nodes) :
    NodePlan.Closed graph layout (wantedPlans graph layout) node
      (wantedPlan graph layout node) where
  node_eq := rfl
  kind_eq := rfl
  labels_eq := map_label_wantedPlan graph layout node
  supertypes := by
    intro abstraction ha
    obtain ⟨whole, hw, rfl⟩ := List.mem_map.mp ha
    obtain ⟨expected, hs, he, hl⟩ :=
      (Engine.mk graph layout).supertypes_eq hn (List.mem_filter.mp hw).1
    refine ⟨expected, hs, ?_⟩
    have hf := forall₂_resolvesIn layout hl
    rwa [← he] at hf
  targets := by
    intro abstraction ha method hm
    obtain ⟨whole, hw, rfl⟩ := List.mem_map.mp ha
    have hw := (List.mem_filter.mp hw).1
    obtain ⟨original, ho, hname, hparams⟩ := Member.exists_of_without hm
    obtain ⟨expected, hc, he, hl⟩ := (Engine.mk graph layout).targets_eq hn hw ho
    refine ⟨expected, hc.congr hname, ?_⟩
    have hstay : method.targets = original.targets.filter fun name =>
        !(unwantedNames graph layout).contains name := by
      rw [Method.targets, hparams]
      exact filterMap_target?_stays fun parameter hp ht =>
        (Engine.mk graph layout).hasDefault_of_target? hw ho hp ht
    rw [hstay, he]
    exact forall₂_resolvesIn layout hl
  values := by
    intro hwanted abstraction ha member hm name list nullable ht
    obtain ⟨whole, hw, rfl⟩ := List.mem_map.mp ha
    obtain ⟨original, ho, rfl⟩ := List.mem_map.mp hm
    obtain ⟨hw, hf⟩ := List.mem_filter.mp hw
    obtain ⟨_, ref, _, hr⟩ := ((Engine.mk graph layout).mem_types_iff rfl).mp
      ⟨whole, hw, hf, original, ho, Member.types_without ht⟩
    obtain ⟨label, hl, hf, rfl⟩ := (Engine.mk graph layout).entity_of_valueType hr
    refine ⟨label, hf, Label.resolvesIn_wantedPlans hl ?_⟩
    rw [hf]
    exact hwanted

/-- The plans that a layout wants of a graph are closed under references. A layout that passes its
check always yields plans, one for each node, in order, with its wanted abstractions. In the
plan of a node the supertypes of an abstraction, and what the parameters of its methods configure,
are exactly what its family, field and methods ask for, less the names that an unwanted
abstraction has; and the plans hold the abstraction that each of these references is for, under
the name referred to. If entities are wanted they hold the entity of every value too. -/
theorem closed_generate (h : layout.check = .ok ()) :
    ∃ plans, generate graph layout = .ok plans ∧
      List.Forall₂ (NodePlan.Closed graph layout plans) graph.nodes plans := by
  refine ⟨wantedPlans graph layout, generate_eq h, ?_⟩
  have hclosed : ∀ node ∈ graph.nodes, NodePlan.Closed graph layout (wantedPlans graph layout)
      node (wantedPlan graph layout node) := fun node hn => closed_wantedPlan hn
  nth_rewrite 2 [wantedPlans_eq_map]
  rw [List.forall₂_map_right_iff, List.forall₂_same]
  exact hclosed

end Pruned

/-- A schema in which every kind of reference occurs. -/
def petSteps : List SchemaStep :=
  [ .node "Int" .scalar [],
    .node "Animal" .interface [.field "age" ⟨"Int", false, true⟩ false false []],
    .node "Dog" .object
      [ .implements "Animal",
        .field "age" ⟨"Int", false, true⟩ false false [],
        .field "master" ⟨"Person", false, false⟩ true false [] ],
    .node "Pet" .union [.member "Dog"],
    .node "Person" .object
      [ .field "pets" ⟨"Animal", true, false⟩ false false
          [.argument "first" ⟨"Int", false, true⟩ false []],
        .field "pet" ⟨"Pet", false, true⟩ false false
          [.argument "id" ⟨"Int", false, false⟩ false []] ] ]

/-- A layout without qualified projections, to which the schema refers. -/
def withoutQualifiedProjections : Layout :=
  { Layout.usual with families := { Layout.Families.all with qualifiedProjection := false } }

/-- The plans of the schema with pets are closed under references, also without a family. -/
theorem closed_generate_pets :
    ∃ graph, Graph.build ⟨0⟩ .strict petSteps = .ok graph ∧
      withoutQualifiedProjections.check = .ok () ∧
      ∃ plans, generate graph withoutQualifiedProjections = .ok plans ∧
        List.Forall₂ (NodePlan.Closed graph withoutQualifiedProjections plans)
          graph.nodes plans := by
  obtain ⟨graph, h⟩ : ∃ graph, Graph.build ⟨0⟩ .strict petSteps = .ok graph := ⟨_, rfl⟩
  have hc : withoutQualifiedProjections.check = .ok () := rfl
  exact ⟨graph, h, hc, closed_generate hc⟩

end QuerySurface.Plan
