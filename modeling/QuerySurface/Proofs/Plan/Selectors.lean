import QuerySurface.Proofs.Catalog.Apart
import QuerySurface.Proofs.Plan.Values
import QuerySurface.Proofs.Plan.Views

/-!
# Where arguments surface

The arguments of a field surface in two places of the plan of its node: as parameters of its
selector and as properties of its selection. Both places are determined by four facts: whether the
field is always fetched, whether it can be selected without giving anything, whether its value
has a projection, and which of its arguments may be left out. Between the two places no argument is
offered twice, and the only ones that are not offered are those that may be left out, but must
not be absent, of a field that can be selected without giving anything.
-/

namespace QuerySurface.Plan

open Schema (Argument Field Graph GraphId Kind Node SchemaStep Strictness)

/-! ## Arguments in the schema -/

/-- The arguments of a field that a caller has to give. -/
def mandatory (field : Field) : List Argument :=
  field.arguments.filter fun argument => !argument.type.nullable && !argument.hasDefault

/-- The arguments of a field that a caller may leave out. -/
def omittable (field : Field) : List Argument :=
  field.arguments.filter fun argument => argument.type.nullable || argument.hasDefault

/-- The arguments of a field that may be absent. -/
def absentable (field : Field) : List Argument :=
  field.arguments.filter fun argument => argument.type.nullable

/-- The value of a field is selected in turn: its type names an object, an interface or a union. -/
def Nests (graph : Graph) (field : Field) (target : Node) : Prop :=
  graph.referenced? field.type = some target ∧ target.kind ∈ [Kind.object, .interface, .union]

/-! ## Arguments in a plan -/

/-- A parameter takes a value if it configures nothing. -/
def Parameter.isValue (parameter : Parameter) : Bool :=
  parameter.type.target?.isNone

/-- The names of the values that the selectors of a name in a plan take. -/
def NodePlan.passed (plan : NodePlan) (field : String) : List String :=
  (plan.abstractions.filter (·.family == .projection)).flatMap fun projection =>
    (projection.members.filter (·.name == field)).flatMap fun member =>
      member.method?.elim [] fun method =>
        (method.parameters.filter Parameter.isValue).map Parameter.name

/-- The names of the properties that the selections of a field in a plan set. -/
def NodePlan.settable (plan : NodePlan) (field : String) : List String :=
  (plan.abstractions.filter fun it => it.family == .selection && it.field == some field).flatMap
    fun selection => selection.members.map Member.name

/-- The names under which arguments of a field surface in a plan. -/
def NodePlan.surfacing (plan : NodePlan) (field : String) : List String :=
  plan.passed field ++ plan.settable field

/-- A parameter passes an argument on. -/
structure Passes (engine : Engine) (hasDefault : Bool) (argument : Argument)
    (parameter : Parameter) : Prop where
  /-- It has the name of the argument. -/
  name_eq : parameter.name = argument.name
  /-- It has the type of the argument. -/
  type_eq : parameter.type = engine.valueType argument.type
  /-- Whether it may be left out. -/
  hasDefault_eq : parameter.hasDefault = hasDefault

/-- A member sets an argument. -/
inductive Sets (engine : Engine) (argument : Argument) : Member → Prop where
  /-- A property of the name and the type of the argument, which is not inherited. -/
  | property (comments : List String) :
    Sets engine argument
      (.property ⟨argument.name, engine.valueType argument.type, false, true, comments⟩)

/-- What configures the value of a field at the end of its selector. -/
inductive Configured (engine : Engine) (plan : NodePlan) (field : Field) :
    List Parameter → Prop where
  /-- Nothing, if the value is not selected in turn. -/
  | leaf (bare : ∀ target, ¬Nests engine.graph field target) : Configured engine plan field []
  /-- The query of the field, if the field can be selected without giving anything. -/
  | query {target : Node} {query : Abstraction} (nests : Nests engine.graph field target)
      (selected : engine.graph.isSelection field = true) (mem : query ∈ plan.abstractions)
      (family_eq : query.family = .query) (field_eq : query.field = some field.name) :
      Configured engine plan field
        [⟨engine.layout.parameters.query, .configurator query.name, true, []⟩]
  /-- Otherwise the projection of an object, or the qualified projection of anything else. -/
  | nested {target : Node} {other : NodePlan} {abstraction : Abstraction}
      (nests : Nests engine.graph field target)
      (unselected : engine.graph.isSelection field = false)
      (plan_eq : engine.plan target = .ok other)
      (found : other.ofFamily?
        (if target.kind = .object then .projection else .qualifiedProjection) = some abstraction) :
      Configured engine plan field
        [⟨engine.layout.parameters.projection, .configurator abstraction.name, true, []⟩]

/-- The parameters of the selector of a field: the arguments that have to be given; then the
others, unless the field can be selected without giving anything; then what configures the value. -/
def Parametrized (engine : Engine) (plan : NodePlan) (field : Field)
    (parameters : List Parameter) : Prop :=
  ∃ given omitted configuring, parameters = given ++ omitted ++ configuring ∧
    List.Forall₂ (Passes engine false) (mandatory field) given ∧
    List.Forall₂ (Passes engine true)
      (if engine.graph.isSelection field then [] else omittable field) omitted ∧
    Configured engine plan field configuring

/-- The selection of a field stands in a plan, with its query right behind it and nothing else that
belongs to the field. -/
structure Selected (engine : Engine) (plan : NodePlan) (field : Field)
    (selection query : Abstraction) : Prop where
  /-- The selection and the query stand side by side, and no other abstraction is for the field. -/
  adjacent : ∃ front back, plan.abstractions = front ++ selection :: query :: back ∧
    ∀ other ∈ front ++ back, other.field ≠ some field.name
  /-- The family of the selection. -/
  selection_family : selection.family = .selection
  /-- The selection is for the field. -/
  selection_field : selection.field = some field.name
  /-- The family of the query. -/
  query_family : query.family = .query
  /-- The query is for the field. -/
  query_field : query.field = some field.name
  /-- The selection sets the arguments that may be absent, in order. -/
  sets : List.Forall₂ (Sets engine) (absentable field) selection.members

/-- How a field and its arguments appear in the plan of their node and in its projection. -/
structure Appears (engine : Engine) (plan : NodePlan) (projection : Abstraction) (field : Field) :
    Prop where
  /-- A field that is always fetched has no selector. -/
  fetched : field.required = true → ∀ member ∈ projection.members, member.name ≠ field.name
  /-- Any other field has one selector, with these parameters. -/
  selector : field.required = false → ∃ method,
    projection.members.filter (·.name == field.name) = [.method method] ∧
      Parametrized engine plan field method.parameters
  /-- A field that can be selected without giving anything has a selection and a query. -/
  selected : engine.graph.isSelection field = true →
    ∃ selection query, Selected engine plan field selection query
  /-- Any other field has neither. -/
  unselected : engine.graph.isSelection field = false →
    ∀ abstraction ∈ plan.abstractions, abstraction.field ≠ some field.name
  /-- Every argument of a field that is not always fetched surfaces once, except for those that must
  not be absent of a field with a selection, which do not surface. -/
  once : field.required = false → ∀ argument ∈ field.arguments,
    (plan.surfacing field.name).count argument.name =
      if engine.graph.isSelection field = true ∧ argument.type.nullable = false then 0 else 1
  /-- Nothing but arguments surfaces. -/
  only : ∀ name ∈ plan.surfacing field.name, ∃ argument ∈ field.arguments, argument.name = name

/-! ## Which fields can be selected without giving anything -/

section arguments

variable {graph : Graph} {field : Field} {argument : Argument}

/-- A value has a projection if it is selected in turn. -/
theorem hasProjection_iff :
    graph.hasProjection field.type = true ↔ ∃ target, Nests graph field target := by
  rw [Graph.hasProjection, Option.any_eq_true]
  refine exists_congr fun target => and_congr_right fun _ => ?_
  cases target.kind <;> simp [Kind.hasProjection]

/-- A field can be selected without giving anything if its value is selected in turn and no argument
has to be given. -/
theorem isSelection_iff :
    graph.isSelection field = true ↔
      (∃ target, Nests graph field target) ∧ mandatory field = [] := by
  rw [Graph.isSelection, Bool.and_eq_true, hasProjection_iff, mandatory, List.filter_eq_nil_iff,
    List.all_eq_true]
  refine and_congr_right fun _ => forall_congr' fun argument => imp_congr_right fun _ => ?_
  cases hn : argument.type.nullable <;> cases hd : argument.hasDefault <;>
    simp [Argument.isInitialized, hn, hd]

/-- An argument either has to be given or may be left out. -/
theorem count_mandatory_omittable (hn : (Catalog.names field.arguments).Nodup)
    (hm : argument ∈ field.arguments) :
    (Catalog.names (mandatory field)).count argument.name +
      (Catalog.names (omittable field)).count argument.name = 1 := by
  rw [mandatory, omittable]
  have hgiven := Catalog.count_name_filter hn
    (fun argument => !argument.type.nullable && !argument.hasDefault) hm
  have homitted := Catalog.count_name_filter hn
    (fun argument => argument.type.nullable || argument.hasDefault) hm
  change List.count argument.name _ = _ at hgiven homitted
  rw [hgiven, homitted]
  cases argument.type.nullable <;> cases argument.hasDefault <;> rfl

/-- An argument that may be absent counts among those. -/
theorem count_absentable (hn : (Catalog.names field.arguments).Nodup)
    (hm : argument ∈ field.arguments) :
    (Catalog.names (absentable field)).count argument.name =
      if argument.type.nullable then 1 else 0 :=
  Catalog.count_name_filter hn (fun argument => argument.type.nullable) hm

end arguments

/-! ## Parameters -/

section parameters

variable {engine : Engine} {plan : NodePlan} {field : Field} {hasDefault : Bool}
  {arguments : List Argument} {parameters : List Parameter}

/-- The parameters of arguments pass these on. -/
theorem passes_argumentParameter (engine : Engine) (hasDefault : Bool) (arguments : List Argument) :
    List.Forall₂ (Passes engine hasDefault) arguments
      (arguments.map (engine.argumentParameter hasDefault)) := by
  rw [List.forall₂_map_right_iff]
  exact List.forall₂_same.mpr fun argument _ => ⟨rfl, rfl, rfl⟩

/-- The members that set arguments are named for them. -/
theorem sets_setter (engine : Engine) (arguments : List Argument) :
    List.Forall₂ (Sets engine) arguments
      (arguments.map fun argument => .property (engine.setter argument)) := by
  rw [List.forall₂_map_right_iff]
  exact List.forall₂_same.mpr fun argument _ => .property _

/-- Parameters that pass arguments on configure nothing and have the names of these. -/
theorem names_of_passes (h : List.Forall₂ (Passes engine hasDefault) arguments parameters) :
    (parameters.filter Parameter.isValue).map Parameter.name = Catalog.names arguments := by
  induction h with
  | nil => rfl
  | @cons argument parameter _ _ hp _ ih =>
    have hvalue : parameter.isValue = true := by
      rw [Parameter.isValue, hp.type_eq, engine.target?_valueType]
      rfl
    rw [List.filter_cons_of_pos hvalue, List.map_cons, ih, hp.name_eq]
    rfl

/-- What configures a value is not among the values. -/
theorem Configured.filter_eq (h : Configured engine plan field parameters) :
    parameters.filter Parameter.isValue = [] := by
  cases h <;> rfl

/-- The names of the values that a selector takes. -/
theorem Parametrized.names_eq (h : Parametrized engine plan field parameters) :
    (parameters.filter Parameter.isValue).map Parameter.name =
      Catalog.names (mandatory field) ++
        Catalog.names (if engine.graph.isSelection field then [] else omittable field) := by
  obtain ⟨given, omitted, configuring, rfl, hgiven, homitted, hconfigured⟩ := h
  rw [List.filter_append, List.filter_append, hconfigured.filter_eq, List.append_nil,
    List.map_append, names_of_passes hgiven, names_of_passes homitted]

/-- Members that set arguments have the names of these. -/
theorem names_of_sets {members : List Member} (h : List.Forall₂ (Sets engine) arguments members) :
    members.map Member.name = Catalog.names arguments := by
  induction h with
  | nil => rfl
  | @cons argument _ _ _ hs _ ih =>
    obtain ⟨⟩ := hs
    rw [List.map_cons, ih]
    rfl

end parameters

/-! ## The plan of a node -/

section plan

variable {engine : Engine} {node : Node} {field : Field}

/-- In front of the selections, a node has abstractions of its own. -/
theorem exists_own_abstractions (engine : Engine) (hk : node.kind.hasEntity = true) :
    ∃ own, engine.abstractions node = own ++ engine.selections node ∧
      own.filter (·.family == .projection) = [engine.projection node] ∧
      ∀ abstraction ∈ own, abstraction.field = none := by
  cases h : node.kind <;> rw [h] at hk <;> simp only [Kind.hasEntity, Bool.false_eq_true] at hk
  all_goals
    rw [Engine.abstractions, h]
    exact ⟨_, rfl, rfl, by simp [Engine.entity, Engine.projection, Engine.qualificationOf,
      Engine.qualifiedProjectionOf]⟩

/-- The selection and the query of a field. -/
def selectionPair (engine : Engine) (node : Node) (field : Field) : List Abstraction :=
  [engine.selection node field, engine.query node field]

/-- Selections and queries are of their own families, and made for the fields that they are made
of. -/
theorem of_mem_selectionPairs {fields : List Field} {abstraction : Abstraction}
    (h : abstraction ∈ fields.flatMap (selectionPair engine node)) :
    (abstraction.family = .selection ∨ abstraction.family = .query) ∧
      ∃ field ∈ fields, abstraction.field = some field.name := by
  obtain ⟨field, hf, ha⟩ := List.mem_flatMap.mp h
  rcases List.mem_pair.mp ha with rfl | rfl
  · exact ⟨.inl rfl, field, hf, rfl⟩
  · exact ⟨.inr rfl, field, hf, rfl⟩

/-- The selections of a node are the pairs of its fields that can be selected without giving
anything. -/
theorem selections_eq (engine : Engine) (node : Node) :
    engine.selections node =
      (node.fields.filter engine.graph.isSelection).flatMap (selectionPair engine node) :=
  rfl

/-- The selections of a node hold nothing of another family. -/
theorem filter_selections (engine : Engine) (node : Node) {family : Family}
    (hs : family ≠ .selection) (hq : family ≠ .query) :
    (engine.selections node).filter (·.family == family) = [] := by
  rw [List.filter_eq_nil_iff]
  intro abstraction ha hfamily
  have hsame : abstraction.family = family := beq_iff_eq.mp hfamily
  rcases (of_mem_selectionPairs ha).1 with hf | hf
  · exact hs (hsame.symm.trans hf)
  · exact hq (hsame.symm.trans hf)

/-- The plan of a node has one projection. -/
theorem filter_projection (engine : Engine) (hk : node.kind.hasEntity = true) :
    (engine.derived node).abstractions.filter (·.family == .projection) =
      [engine.projection node] := by
  obtain ⟨own, hsplit, hown, -⟩ := exists_own_abstractions engine hk
  have hrest : (engine.selections node).filter (·.family == .projection) = [] :=
    filter_selections engine node Family.noConfusion Family.noConfusion
  change (engine.abstractions node).filter _ = _
  rw [hsplit, List.filter_append, hown, hrest, List.append_nil]

/-- A field that can be selected without giving anything is selected in the plan of its node. -/
theorem selected_derived (engine : Engine) (hk : node.kind.hasEntity = true)
    (hn : (Catalog.names node.fields).Nodup) (hf : field ∈ node.fields)
    (hs : engine.graph.isSelection field = true) :
    Selected engine (engine.derived node) field (engine.selection node field)
      (engine.query node field) where
  adjacent := by
    obtain ⟨own, hsplit, -, hown⟩ := exists_own_abstractions engine hk
    have hmem : field ∈ node.fields.filter engine.graph.isSelection :=
      List.mem_filter.mpr ⟨hf, hs⟩
    obtain ⟨front, back, hfields⟩ := List.append_of_mem hmem
    have hapart : ∀ other ∈ front ++ back, other.name ≠ field.name := by
      have hnodup := Catalog.nodup_filter hn engine.graph.isSelection
      rw [hfields, Catalog.names, List.map_append, List.map_cons, List.nodup_middle,
        List.nodup_cons, ← List.map_append] at hnodup
      intro other ho hname
      exact hnodup.1 (List.mem_map.mpr ⟨other, ho, hname⟩)
    refine ⟨own ++ front.flatMap (selectionPair engine node),
      back.flatMap (selectionPair engine node), ?_, ?_⟩
    · change engine.abstractions node = _
      rw [hsplit, selections_eq, hfields, List.flatMap_append, List.flatMap_cons,
        List.append_assoc]
      rfl
    · intro abstraction hm
      rw [List.append_assoc, ← List.flatMap_append, List.mem_append] at hm
      rcases hm with hm | hm
      · rw [hown abstraction hm]
        exact (Option.some_ne_none _).symm
      · obtain ⟨-, other, ho, hfield⟩ := of_mem_selectionPairs hm
        rw [hfield]
        exact fun h => hapart other ho (Option.some.inj h)
  selection_family := rfl
  selection_field := rfl
  query_family := rfl
  query_field := rfl
  sets := sets_setter engine (absentable field)

/-- A field that cannot be selected without giving anything has neither selection nor query. -/
theorem unselected_derived (hn : (Catalog.names node.fields).Nodup) (hf : field ∈ node.fields)
    (hs : engine.graph.isSelection field = false) {abstraction : Abstraction}
    (ha : abstraction ∈ (engine.derived node).abstractions) :
    abstraction.field ≠ some field.name := by
  intro hfield
  obtain ⟨-, rfl | rfl | ⟨-, rfl | rfl⟩ | ⟨other, ho, hselected, hcases⟩⟩ :=
    engine.mem_abstractions_iff.mp ha
  · cases hfield
  · cases hfield
  · cases hfield
  · cases hfield
  · have hname : other.name = field.name := by
      rcases hcases with rfl | rfl <;> exact Option.some.inj hfield
    rw [Catalog.eq_of_name_eq hn ho hf hname, hs] at hselected
    cases hselected

/-- The properties that the selection of a field sets are the arguments that may be absent. -/
theorem Selected.settable_eq {plan : NodePlan} {selection query : Abstraction}
    (h : Selected engine plan field selection query) :
    plan.settable field.name = Catalog.names (absentable field) := by
  obtain ⟨front, back, hsplit, hothers⟩ := h.adjacent
  have hnone : ∀ others : List Abstraction, (∀ other ∈ others, other.field ≠ some field.name) →
      others.filter (fun it => it.family == .selection && it.field == some field.name) = [] := by
    intro others ho
    rw [List.filter_eq_nil_iff]
    intro other hm htest
    exact ho other hm (by simpa using (Bool.and_eq_true_iff.mp htest).2)
  rw [List.forall_mem_append] at hothers
  rw [NodePlan.settable, hsplit, List.filter_append, hnone front hothers.1,
    List.filter_cons_of_pos (by simp [h.selection_family, h.selection_field]),
    List.filter_cons_of_neg (by simp [h.query_family]), hnone back hothers.2, List.nil_append,
    List.flatMap_singleton, names_of_sets h.sets]

/-- Nothing is set for a field without a selection. -/
theorem settable_of_unselected {plan : NodePlan}
    (h : ∀ abstraction ∈ plan.abstractions, abstraction.field ≠ some field.name) :
    plan.settable field.name = [] := by
  rw [NodePlan.settable, List.flatMap_eq_nil_iff]
  intro abstraction ha
  obtain ⟨ha, htest⟩ := List.mem_filter.mp ha
  exact absurd (by simpa using (Bool.and_eq_true_iff.mp htest).2) (h abstraction ha)

/-- The nested projection of a value is in the plan of what the value is. -/
theorem ofFamily?_nested {target : Node} (h : Nests engine.graph field target) :
    ∃ abstraction, (engine.derived target).ofFamily?
        (if target.kind = .object then .projection else .qualifiedProjection) = some abstraction ∧
      engine.nestedProjection field.type = abstraction.name := by
  obtain ⟨htarget, hkind⟩ := h
  simp only [Engine.nestedProjection, htarget, Layout.Decorations.nestedName]
  simp only [List.mem_cons, List.not_mem_nil, or_false] at hkind
  rcases hkind with hk | hk | hk
  · refine ⟨engine.projection target, ?_, by rw [hk]; rfl⟩
    rw [if_pos hk, NodePlan.ofFamily?, Engine.derived, Engine.abstractions, hk]
    rfl
  all_goals
    refine ⟨engine.qualifiedProjectionOf target, ?_, by rw [hk]; rfl⟩
    rw [if_neg (by simp [hk]), NodePlan.ofFamily?, Engine.derived, Engine.abstractions, hk]
    rfl

/-- What stands at the end of a selector configures the value of its field. -/
theorem configured_derived (engine : Engine) (hk : node.kind.hasEntity = true)
    (hf : field ∈ node.fields) :
    Configured engine (engine.derived node) field
      (if engine.graph.hasProjection field.type then [engine.configurator node field] else []) := by
  by_cases hp : engine.graph.hasProjection field.type = true
  · obtain ⟨target, hnests⟩ := hasProjection_iff.mp hp
    rw [if_pos hp, Engine.configurator]
    cases hs : engine.graph.isSelection field with
    | true =>
      have hmem : engine.query node field ∈ (engine.derived node).abstractions :=
        engine.mem_abstractions_iff.mpr ⟨hk, .inr (.inr (.inr ⟨field, hf, hs, .inr rfl⟩))⟩
      exact .query hnests hs hmem rfl rfl
    | false =>
      obtain ⟨abstraction, hfound, hname⟩ := ofFamily?_nested hnests
      rw [if_neg Bool.false_ne_true, hname]
      exact .nested hnests hs (engine.plan_eq target) hfound
  · rw [if_neg hp]
    exact .leaf fun target hnests => hp (hasProjection_iff.mpr ⟨target, hnests⟩)

/-- The parameters of a selector. -/
theorem parametrized_derived (engine : Engine) (hk : node.kind.hasEntity = true)
    (hf : field ∈ node.fields) :
    Parametrized engine (engine.derived node) field (engine.selectorParameters node field) := by
  have hgiven : field.arguments.filter (!·.isInitialized) = mandatory field :=
    List.filter_congr fun argument _ => Bool.not_or _ _
  have homitted : (if engine.graph.isSelection field then []
        else (field.arguments.filter (·.isInitialized)).map (engine.argumentParameter true)) =
      (if engine.graph.isSelection field then [] else omittable field).map
        (engine.argumentParameter true) := by
    rw [apply_ite (List.map _)]
    rfl
  refine ⟨_, _, _, rfl, ?_, ?_, configured_derived engine hk hf⟩
  · rw [hgiven]
    exact passes_argumentParameter engine false (mandatory field)
  · rw [homitted]
    exact passes_argumentParameter engine true _

/-- A field that is not always fetched has one selector, and any other field has none. -/
theorem filter_selector (engine : Engine) (hn : (Catalog.names node.fields).Nodup)
    (hf : field ∈ node.fields) :
    (engine.projection node).members.filter (·.name == field.name) =
      if field.required then [] else [.method (engine.selector node field)] := by
  cases hr : field.required with
  | true =>
    rw [if_pos rfl, List.filter_eq_nil_iff]
    intro member hm hname
    obtain ⟨other, ho, rfl⟩ := List.mem_map.mp hm
    obtain ⟨ho, hoptional⟩ := List.mem_filter.mp ho
    obtain rfl := Catalog.eq_of_name_eq hn ho hf (beq_iff_eq.mp hname)
    simp [hr] at hoptional
  | false =>
    have hshown : field ∈ node.fields.filter (!·.required) :=
      List.mem_filter.mpr ⟨hf, by simp [hr]⟩
    have hone := Catalog.filter_name_of_mem (Catalog.nodup_filter hn (!·.required)) hshown
    rw [if_neg Bool.false_ne_true, Engine.projection, List.filter_map]
    change List.map _ (List.filter (fun other => Named.name other == Named.name field) _) = _
    rw [hone, List.map_singleton]

/-- The values that the selectors of a field take. -/
theorem passed_derived (engine : Engine) (hk : node.kind.hasEntity = true)
    (hn : (Catalog.names node.fields).Nodup) (hf : field ∈ node.fields) :
    (engine.derived node).passed field.name =
      if field.required then []
      else Catalog.names (mandatory field) ++
        Catalog.names (if engine.graph.isSelection field then [] else omittable field) := by
  rw [NodePlan.passed, filter_projection _ hk, List.flatMap_singleton, filter_selector engine hn hf]
  cases field.required with
  | true => rfl
  | false =>
    rw [if_neg Bool.false_ne_true, List.flatMap_singleton]
    exact (parametrized_derived _ hk hf).names_eq

/-- The properties that selections of a field set. -/
theorem settable_derived (engine : Engine) (hk : node.kind.hasEntity = true)
    (hn : (Catalog.names node.fields).Nodup) (hf : field ∈ node.fields) :
    (engine.derived node).settable field.name =
      if engine.graph.isSelection field then Catalog.names (absentable field) else [] := by
  cases hs : engine.graph.isSelection field with
  | true => exact (selected_derived _ hk hn hf hs).settable_eq
  | false => exact settable_of_unselected fun _ ha => unselected_derived hn hf hs ha

/-- How often an argument of a field that is not always fetched surfaces. -/
theorem count_surfacing (engine : Engine) (hk : node.kind.hasEntity = true)
    (hn : (Catalog.names node.fields).Nodup) (hf : field ∈ node.fields)
    (ha : (Catalog.names field.arguments).Nodup)
    (hr : field.required = false) {argument : Argument} (hm : argument ∈ field.arguments) :
    ((engine.derived node).surfacing field.name).count argument.name =
      if engine.graph.isSelection field = true ∧ argument.type.nullable = false then 0 else 1 := by
  rw [NodePlan.surfacing, passed_derived _ hk hn hf, settable_derived _ hk hn hf, hr,
    if_neg Bool.false_ne_true, List.count_append, List.count_append]
  cases hs : engine.graph.isSelection field with
  | true =>
    -- No argument has to be given, and the selector leaves the others to the selection.
    rw [(isSelection_iff.mp hs).2, if_pos rfl, if_pos rfl, count_absentable ha hm]
    cases argument.type.nullable <;> rfl
  | false =>
    rw [if_neg Bool.false_ne_true, if_neg Bool.false_ne_true, count_mandatory_omittable ha hm]
    simp

/-- What surfaces is an argument. -/
theorem exists_argument_of_surfacing (hk : node.kind.hasEntity = true)
    (hn : (Catalog.names node.fields).Nodup) (hf : field ∈ node.fields) {name : String}
    (h : name ∈ (engine.derived node).surfacing field.name) :
    ∃ argument ∈ field.arguments, argument.name = name := by
  have hkept : ∀ keeps, name ∈ Catalog.names (field.arguments.filter keeps) →
      ∃ argument ∈ field.arguments, argument.name = name := by
    intro keeps hm
    obtain ⟨argument, hargument, hname⟩ := List.mem_map.mp hm
    exact ⟨argument, (List.mem_filter.mp hargument).1, hname⟩
  rcases List.mem_append.mp h with h | h
  · rw [passed_derived engine hk hn hf] at h
    split at h
    · cases h
    · rcases List.mem_append.mp h with h | h
      · exact hkept _ h
      · split at h
        · cases h
        · exact hkept _ h
  · rw [settable_derived engine hk hn hf] at h
    split at h
    · exact hkept _ h
    · cases h

/-- How fields and their arguments appear in plans. The plan of a node of a graph that was built, if
nodes of its kind have views, has one projection, with one selector for every field that is not
always fetched, in the order of the fields; the parameters of a selector, and the selection and
the query that stand side by side for a field, are as `Appears` says. -/
theorem appears_of_build {graph : Graph} {id : GraphId} {strictness : Strictness}
    {steps : List SchemaStep} (hb : Graph.build id strictness steps = .ok graph) (layout : Layout)
    (hm : node ∈ graph.nodes)
    (hk : node.kind ∈ [Kind.object, .query, .mutation, .interface, .union]) :
    ∃ plan projection, (Engine.mk graph layout).plan node = .ok plan ∧
      plan.abstractions.filter (·.family == .projection) = [projection] ∧
      projection.members.map Member.name =
        (node.fields.filter (!·.required)).map Field.name ∧
      ∀ field ∈ node.fields, Appears ⟨graph, layout⟩ plan projection field := by
  have hk : node.kind.hasEntity = true := by
    revert hk
    cases node.kind <;> simp [Kind.hasEntity]
  have hn := (Graph.placed_of_build hb).fields node hm
  refine ⟨_, _, Engine.plan_eq _ node, filter_projection _ hk, ?_, ?_⟩
  · rw [Engine.projection, List.map_map]
    rfl
  intro field hf
  have ha := Graph.nodup_arguments_of_build hb hm hf
  have hselector := filter_selector ⟨graph, layout⟩ hn hf
  constructor
  · intro hr member hmember hname
    rw [hr, if_pos rfl, List.filter_eq_nil_iff] at hselector
    exact hselector member hmember (beq_iff_eq.mpr hname)
  · intro hr
    rw [hr, if_neg Bool.false_ne_true] at hselector
    exact ⟨_, hselector, parametrized_derived _ hk hf⟩
  · exact fun hs => ⟨_, _, selected_derived _ hk hn hf hs⟩
  · exact fun hs _ habstraction => unselected_derived hn hf hs habstraction
  · exact fun hr _ hargument => count_surfacing _ hk hn hf ha hr hargument
  · exact fun _ hname => exists_argument_of_surfacing hk hn hf hname

end plan

/-- A schema in which a field that is selected has an argument with a default value, and other
fields have arguments that have to be given, or no value to be selected. -/
def searchSteps : List SchemaStep :=
  [ .node "Int" .scalar [],
    .node "Result" .union [.member "Page"],
    .node "Page" .object
      [ .field "size" ⟨"Int", false, false⟩ true false [],
        .field "links" ⟨"Int", false, false⟩ false false
          [ .argument "limit" ⟨"Int", false, true⟩ false [],
            .argument "depth" ⟨"Int", false, false⟩ false [] ] ],
    .node "Query" .query
      [ .field "search" ⟨"Result", true, false⟩ false false
          [ .argument "limit" ⟨"Int", false, false⟩ true [],
            .argument "filter" ⟨"Int", false, true⟩ false [] ],
        .field "page" ⟨"Page", false, true⟩ false false
          [ .argument "number" ⟨"Int", false, false⟩ false [],
            .argument "zoom" ⟨"Int", false, true⟩ false [] ] ] ]

/-- The law of selectors holds for the query root of this schema. -/
theorem appears_search :
    ∃ graph node, Graph.build ⟨0⟩ .strict searchSteps = .ok graph ∧ node ∈ graph.nodes ∧
      node.name = "Query" ∧ node.fields.map graph.isSelection = [true, false] ∧
      node.kind ∈ [Kind.object, .query, .mutation, .interface, .union] ∧
      ∃ plan projection, (Engine.mk graph .usual).plan node = .ok plan ∧
        plan.abstractions.filter (·.family == .projection) = [projection] ∧
        projection.members.map Member.name =
          (node.fields.filter (!·.required)).map Field.name ∧
        ∀ field ∈ node.fields, Appears ⟨graph, .usual⟩ plan projection field := by
  obtain ⟨graph, node, hb, hn, hname, hs, hk⟩ : ∃ graph node,
      Graph.build ⟨0⟩ .strict searchSteps = .ok graph ∧ node ∈ graph.nodes ∧
        node.name = "Query" ∧ node.fields.map graph.isSelection = [true, false] ∧
        node.kind ∈ [Kind.object, .query, .mutation, .interface, .union] :=
    ⟨_, _, rfl, .tail _ (.tail _ (.tail _ (.head _))), rfl, rfl, by decide⟩
  exact ⟨graph, node, hb, hn, hname, hs, hk, appears_of_build hb .usual hn hk⟩

end QuerySurface.Plan
