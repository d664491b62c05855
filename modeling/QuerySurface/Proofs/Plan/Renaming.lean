import QuerySurface.Proofs.Plan.References

/-!
# Decorations only rename

A layout gives names, and derivation never looks at a name that a layout has given. What is
derived under two layouts is the same once these names are erased: the names of abstractions
and of what they extend, of the members that narrow to a subtype, of entities as types of values,
and of configurators with their parameters. What each erased name stands for is read off the
graph alone. A name is a function of what it stands for, so that within one run a declaration and
the references to it are the same text. Nothing but names is erased: a plan is what is left of it
together with the names.
-/

namespace QuerySurface.Plan

open Schema (Graph Node Field Argument TypeRef Kind)

/-! ## Erasure -/

/-- A type without the name of an abstraction. -/
def TypeExpr.erased : TypeExpr → TypeExpr
  | .value .entity _ list nullable => .value .entity "" list nullable
  | .configurator _ => .configurator ""
  | type => type

/-- The name of an abstraction in a type. -/
def TypeExpr.names : TypeExpr → List String
  | .value .entity name _ _ => [name]
  | .configurator target => [target]
  | _ => []

/-- Whether a parameter is a configurator, whose name a layout gives. -/
def Parameter.configures (parameter : Parameter) : Bool :=
  parameter.type.target?.isSome

/-- A parameter without names that a layout gives. -/
def Parameter.erased (parameter : Parameter) : Parameter :=
  { parameter with
    name := if parameter.configures then "" else parameter.name
    type := parameter.type.erased }

/-- The names in a parameter that a layout gives. -/
def Parameter.names (parameter : Parameter) : List String :=
  (if parameter.configures then [parameter.name] else []) ++ parameter.type.names

/-- A member of an abstraction of a family without names that a layout gives. The methods of a
qualification narrow to a subtype and have such names themselves. -/
def Member.erased (family : Family) : Member → Member
  | .property it => .property { it with type := it.type.erased }
  | .method it =>
    .method
      { it with
        name := if family = .qualification then "" else it.name
        parameters := it.parameters.map Parameter.erased }

/-- The names in a member that a layout gives. -/
def Member.names (family : Family) : Member → List String
  | .property it => it.type.names
  | .method it =>
    (if family = .qualification then [it.name] else []) ++ it.parameters.flatMap Parameter.names

/-- An abstraction without names that a layout gives; the number of supertypes stays. -/
def Abstraction.erased (abstraction : Abstraction) : Abstraction :=
  { abstraction with
    name := ""
    supertypes := abstraction.supertypes.map fun _ => ""
    members := abstraction.members.map (Member.erased abstraction.family) }

/-- The names in an abstraction that a layout gives, in the order in which they stand. -/
def Abstraction.names (abstraction : Abstraction) : List String :=
  abstraction.name :: abstraction.supertypes ++
    abstraction.members.flatMap (Member.names abstraction.family)

/-- A plan without names that a layout gives. -/
def NodePlan.erased (plan : NodePlan) : NodePlan :=
  { plan with abstractions := plan.abstractions.map Abstraction.erased }

/-- The names in a plan that a layout gives, abstraction by abstraction. -/
def NodePlan.names (plan : NodePlan) : List (List String) :=
  plan.abstractions.map Abstraction.names

/-! ## Nothing else is erased -/

/-- What is left of a thing and the names taken out of it are all of it. What is left tells how
many names there were. -/
def Faithful {α β : Type} (erased : α → β) (names : α → List String) : Prop :=
  ∀ x y, erased x = erased y → (names x).length = (names y).length ∧ (names x = names y → x = y)

/-- Names can be put back into a list of things if they can be put back into each. -/
theorem Faithful.list {α β : Type} {erased : α → β} {names : α → List String}
    (h : Faithful erased names) : Faithful (List.map erased) (List.flatMap names) := by
  intro xs
  induction xs with
  | nil =>
    intro ys he
    have hy : ys = [] := List.map_eq_nil_iff.mp he.symm
    rw [hy]
    exact ⟨rfl, fun _ => rfl⟩
  | cons x xs ih =>
    intro ys he
    cases ys with
    | nil => cases he
    | cons y ys =>
      obtain ⟨hhead, htail⟩ := List.cons.inj he
      obtain ⟨hxl, hx⟩ := h x y hhead
      obtain ⟨hxsl, hxs⟩ := ih ys htail
      constructor
      · simp only [List.flatMap_cons, List.length_append]
        omega
      · intro hn
        obtain ⟨hn, hns⟩ := List.append_inj hn hxl
        rw [hx hn, hxs hns]

/-- A type is what is left of it and its name. -/
theorem TypeExpr.faithful : Faithful erased names := by
  intro x y he
  cases x with
  | value shape name list nullable =>
    cases y with
    | value other _ _ _ => cases shape <;> cases other <;> simp_all [erased, names]
    | configurator _ => cases shape <;> simp [erased] at he
  | configurator target =>
    cases y with
    | value other _ _ _ => cases other <;> simp [erased] at he
    | configurator _ => simp [names]

/-- Whether a type configures something is left of it. -/
theorem TypeExpr.isSome_target?_erased (type : TypeExpr) :
    type.erased.target?.isSome = type.target?.isSome := by
  cases type with
  | value shape _ _ _ => cases shape <;> rfl
  | configurator _ => rfl

/-- A parameter is what is left of it and its names. -/
theorem Parameter.faithful : Faithful erased names := by
  intro x y he
  obtain ⟨hname, htype, hdefault, hcomments⟩ := Parameter.mk.inj he
  have hc : x.configures = y.configures := by
    rw [configures, ← TypeExpr.isSome_target?_erased, htype, TypeExpr.isSome_target?_erased,
      configures]
  obtain ⟨hl, ht⟩ := TypeExpr.faithful x.type y.type htype
  have hsame : x.name = y.name → x.type = y.type → x = y := by
    intro hname htype
    cases x
    cases y
    simp_all
  rw [hc] at hname
  rw [names, names, hc]
  generalize y.configures = configures at hname
  cases configures with
  | false =>
    refine ⟨by simpa using hl, fun hn => ?_⟩
    exact hsame hname (ht hn)
  | true =>
    refine ⟨by simpa using hl, fun hn => ?_⟩
    obtain ⟨hn, hns⟩ := List.cons.inj hn
    exact hsame hn (ht hns)

/-- A member is what is left of it and its names. -/
theorem Member.faithful (family : Family) : Faithful (erased family) (names family) := by
  intro x y he
  cases x with
  | property x =>
    cases y with
    | property y =>
      obtain ⟨hname, htype, hrest⟩ := Property.mk.inj (Member.property.inj he)
      obtain ⟨hl, ht⟩ := TypeExpr.faithful x.type y.type htype
      refine ⟨hl, fun hn => ?_⟩
      cases x
      cases y
      simp_all [names]
    | method _ => cases he
  | method x =>
    cases y with
    | property _ => cases he
    | method y =>
      obtain ⟨hname, hparameters, hrest⟩ := Method.mk.inj (Member.method.inj he)
      obtain ⟨hl, hp⟩ := Parameter.faithful.list x.parameters y.parameters hparameters
      cases x
      cases y
      by_cases hf : family = .qualification <;> simp_all [names]

/-- An abstraction is what is left of it and its names. -/
theorem Abstraction.faithful : Faithful erased names := by
  intro x y he
  obtain ⟨hfamily, -, hsupertypes, hcomments, hfield, hmembers⟩ := Abstraction.mk.inj he
  rw [← hfamily] at hmembers
  have hs : x.supertypes.length = y.supertypes.length := by
    simpa using congrArg List.length hsupertypes
  obtain ⟨hl, hm⟩ := (Member.faithful x.family).list x.members y.members hmembers
  constructor
  · simp only [names, List.length_append, List.length_cons]
    rw [← hfamily]
    omega
  · intro hn
    rw [names, names, ← hfamily] at hn
    obtain ⟨hn, hns⟩ := List.append_inj hn (by simp [hs])
    obtain ⟨hname, hsupertypes⟩ := List.cons.inj hn
    cases x
    cases y
    simp_all

/-- Plans are what is left of them and their names. -/
theorem NodePlan.eq_of_erased_eq {x y : NodePlan} (he : x.erased = y.erased)
    (hn : x.names = y.names) : x = y := by
  obtain ⟨hnode, hkind, habstractions⟩ := NodePlan.mk.inj he
  have hn : x.abstractions.flatMap Abstraction.names =
      y.abstractions.flatMap Abstraction.names := by
    rw [List.flatMap_def, List.flatMap_def]
    exact congrArg List.flatten hn
  have ha := (Abstraction.faithful.list x.abstractions y.abstractions habstractions).2 hn
  cases x
  cases y
  simp_all

/-! ## What names stand for -/

/-- What a name that a layout gives stands for. -/
inductive Role where
  /-- An abstraction, where it is declared and where it is referred to. -/
  | abstraction (label : Label)
  /-- The member that narrows to a subtype. -/
  | narrowing (subtype : String)
  /-- The parameter that configures a nested selection. -/
  | projectionParameter
  /-- The parameter that configures a query. -/
  | queryParameter
  deriving DecidableEq, Repr

/-- The name of what plays a role. -/
def Role.name (layout : Layout) : Role → String
  | .abstraction label => label.name layout.decorations
  | .narrowing subtype => layout.decorations.onSubtypeName subtype
  | .projectionParameter => layout.parameters.projection
  | .queryParameter => layout.parameters.query

section Roles

variable (graph : Graph)

/-- What a type of a value refers to. -/
def valueRoles (type : TypeRef) : List Role :=
  if (graph.referenced? type).any (·.kind.hasEntity) then
    [.abstraction ⟨type.node, .entity, none⟩]
  else []

/-- What selects the value of a type. -/
def selectedLabel (type : TypeRef) : Label :=
  match graph.referenced? type with
  | some target => nestedLabel target
  | none => ⟨type.node, .projection, none⟩

/-- The configurator of a field, and what it configures. -/
def configuratorRoles (node : Node) (field : Field) : List Role :=
  if graph.isSelection field then
    [.queryParameter, .abstraction (Label.ofField .query node field)]
  else [.projectionParameter, .abstraction (selectedLabel graph field.type)]

/-- What the selector of a field names: types of the arguments that have to be given, of the
others unless a selection takes them, and the configurator. -/
def selectorRoles (node : Node) (field : Field) : List Role :=
  (field.arguments.filter (!·.isInitialized)).flatMap (valueRoles graph ·.type) ++
    (if graph.isSelection field then []
      else (field.arguments.filter (·.isInitialized)).flatMap (valueRoles graph ·.type)) ++
    (if graph.hasProjection field.type then configuratorRoles graph node field else [])

/-- What the entity of a node names: itself, the entities of the interfaces that the node
implements, and types of the fields. -/
def entityRoles (node : Node) : List Role :=
  .abstraction (Label.ofNode .entity node) ::
    (graph.implements node).map (fun parent => .abstraction (Label.ofNode .entity parent)) ++
    node.fields.flatMap (valueRoles graph ·.type)

/-- What the projection of a node names. -/
def projectionRoles (node : Node) : List Role :=
  .abstraction (Label.ofNode .projection node) ::
    (graph.implements node).map (fun parent => .abstraction (Label.ofNode .projection parent)) ++
    (node.fields.filter (!·.required)).flatMap (selectorRoles graph node)

/-- What the qualification of a node names: itself, and for each object that a value can be the
member, its parameter and the projection that it configures. -/
def qualificationRoles (node : Node) : List Role :=
  .abstraction (Label.ofNode .qualification node) ::
    (graph.possibleObjects node).flatMap fun subtype =>
      [ .narrowing subtype.name, .projectionParameter,
        .abstraction (Label.ofNode .projection subtype) ]

/-- What the qualified projection of a node names. -/
def qualifiedProjectionRoles (node : Node) : List Role :=
  [.qualifiedProjection, .projection, .qualification].map fun family =>
    .abstraction (Label.ofNode family node)

/-- What the selection of a field names. -/
def selectionRoles (node : Node) (field : Field) : List Role :=
  .abstraction (Label.ofField .selection node field) ::
    (field.arguments.filter (·.type.nullable)).flatMap (valueRoles graph ·.type)

/-- What the query of a field names. -/
def queryRoles (node : Node) (field : Field) : List Role :=
  [ .abstraction (Label.ofField .query node field),
    .abstraction (Label.ofField .selection node field),
    .abstraction (selectedLabel graph field.type) ]

/-- What the names in the plan of a node stand for, abstraction by abstraction. -/
def nodeRoles (node : Node) : List (List Role) :=
  (match node.kind with
    | .scalar | .enum | .input => []
    | .query | .mutation | .object => [entityRoles graph node, projectionRoles graph node]
    | .interface | .union =>
      [ entityRoles graph node, projectionRoles graph node, qualificationRoles graph node,
        qualifiedProjectionRoles node ]) ++
    (selectedFields graph node).flatMap fun field =>
      [selectionRoles graph node field, queryRoles graph node field]

end Roles

/-! ## Nothing else depends on a layout -/

namespace Engine

section Erased

variable (graph : Graph) (first second : Layout)

/-- The shape of the type of a value depends on the graph alone. -/
theorem erased_valueType (type : TypeRef) :
    ((mk graph first).valueType type).erased = ((mk graph second).valueType type).erased := by
  simp only [valueType]
  split <;> rfl

/-- The data view of a node depends on the graph alone, up to names. -/
theorem erased_entity (node : Node) :
    ((mk graph first).entity node).erased = ((mk graph second).entity node).erased := by
  have hmembers : ∀ field, Member.erased .entity (.property ((mk graph first).accessor field)) =
      Member.erased .entity (.property ((mk graph second).accessor field)) := by
    intro field
    simp only [Member.erased, accessor, erased_valueType graph first second]
  simp only [Abstraction.erased, entity, List.map_map, Function.comp_def, hmembers]

/-- The parameter of an argument depends on the graph alone, up to names. -/
theorem erased_argumentParameter (hasDefault : Bool) (argument : Argument) :
    ((mk graph first).argumentParameter hasDefault argument).erased =
      ((mk graph second).argumentParameter hasDefault argument).erased := by
  simp only [Parameter.erased, Parameter.configures, argumentParameter, target?_valueType,
    erased_valueType graph first second]

/-- Which configurator a field has depends on the graph alone, up to names. -/
theorem erased_configurator (node : Node) (field : Field) :
    ((mk graph first).configurator node field).erased =
      ((mk graph second).configurator node field).erased := by
  simp only [configurator]
  split <;> rfl

/-- The parameters of a selector depend on the graph alone, up to names. -/
theorem erased_selectorParameters (node : Node) (field : Field) :
    ((mk graph first).selectorParameters node field).map Parameter.erased =
      ((mk graph second).selectorParameters node field).map Parameter.erased := by
  simp only [selectorParameters, List.map_append, List.map_map, Function.comp_def,
    apply_ite (List.map Parameter.erased), List.map_cons, List.map_nil,
    erased_argumentParameter graph first second, erased_configurator graph first second]

/-- The selection view of a node depends on the graph alone, up to names. -/
theorem erased_projection (node : Node) :
    ((mk graph first).projection node).erased = ((mk graph second).projection node).erased := by
  have hmembers : ∀ field,
      Member.erased .projection (.method ((mk graph first).selector node field)) =
        Member.erased .projection (.method ((mk graph second).selector node field)) := by
    intro field
    simp only [Member.erased, selector, erased_selectorParameters graph first second]
  simp only [Abstraction.erased, projection, List.map_map, Function.comp_def, hmembers]

/-- Selection per subtype depends on the graph alone, up to names. -/
theorem erased_qualificationOf (node : Node) :
    ((mk graph first).qualificationOf node).erased =
      ((mk graph second).qualificationOf node).erased := by
  simp only [Abstraction.erased, qualificationOf, List.map_map]
  rfl

/-- The setters of a field depend on the graph alone, up to names. -/
theorem erased_selection (node : Node) (field : Field) :
    ((mk graph first).selection node field).erased =
      ((mk graph second).selection node field).erased := by
  have hmembers : ∀ argument,
      Member.erased .selection (.property ((mk graph first).setter argument)) =
        Member.erased .selection (.property ((mk graph second).setter argument)) := by
    intro argument
    simp only [Member.erased, setter, erased_valueType graph first second]
  simp only [Abstraction.erased, selection, List.map_map, Function.comp_def, hmembers]

/-- The plan of a node depends on the graph alone, up to names. -/
theorem erased_derived (node : Node) :
    ((mk graph first).derived node).erased = ((mk graph second).derived node).erased := by
  have hqualified : ((mk graph first).qualifiedProjectionOf node).erased =
      ((mk graph second).qualifiedProjectionOf node).erased := rfl
  have hquery : ∀ field, ((mk graph first).query node field).erased =
      ((mk graph second).query node field).erased := fun field => rfl
  have hselections : ((mk graph first).selections node).map Abstraction.erased =
      ((mk graph second).selections node).map Abstraction.erased := by
    simp only [selections, List.map_flatMap, List.map_cons, List.map_nil,
      erased_selection graph first second, hquery]
  simp only [NodePlan.erased, derived, abstractions]
  split <;>
    simp only [List.map_append, List.map_cons, List.map_nil, erased_entity graph first second,
      erased_projection graph first second, erased_qualificationOf graph first second,
      hqualified, hselections]

end Erased

/-! ## Names follow roles -/

section Names

variable (engine : Engine)

/-- The type of a value has the name of the entity that it refers to. -/
theorem names_valueType (type : TypeRef) :
    (engine.valueType type).names =
      (valueRoles engine.graph type).map (Role.name engine.layout) := by
  unfold valueType valueRoles Graph.kindOf? Graph.referenced?
  cases engine.graph.node? type.node with
  | none => rfl
  | some target =>
    cases hk : target.kind <;> simp [hk, Kind.hasEntity, TypeExpr.names] <;> rfl

/-- The parameter of an argument names what its type refers to. -/
theorem names_argumentParameter (hasDefault : Bool) (argument : Argument) :
    (engine.argumentParameter hasDefault argument).names =
      (valueRoles engine.graph argument.type).map (Role.name engine.layout) := by
  have hvalue : (engine.argumentParameter hasDefault argument).configures = false := by
    rw [Parameter.configures, argumentParameter, target?_valueType]
    rfl
  rw [Parameter.names, hvalue]
  exact engine.names_valueType argument.type

/-- The name of what configures a nested selection is that of a label of the type, which need not
be declared. -/
theorem nestedProjection_eq_name (type : TypeRef) :
    engine.nestedProjection type =
      (selectedLabel engine.graph type).name engine.layout.decorations := by
  cases h : engine.graph.referenced? type with
  | none => simp only [nestedProjection, selectedLabel, h]; rfl
  | some target =>
    rw [nestedProjection_eq engine h, selectedLabel, h]

/-- A configurator names itself and what it configures. -/
theorem names_configurator (node : Node) (field : Field) :
    (engine.configurator node field).names =
      (configuratorRoles engine.graph node field).map (Role.name engine.layout) := by
  unfold configurator configuratorRoles
  split
  · rfl
  · simp only [nestedProjection_eq_name]
    rfl

/-- The selector of a field names what its parameters refer to. -/
theorem names_selector (node : Node) (field : Field) :
    Member.names .projection (.method (engine.selector node field)) =
      (selectorRoles engine.graph node field).map (Role.name engine.layout) := by
  have harguments : ∀ hasDefault (arguments : List Argument),
      (arguments.map (engine.argumentParameter hasDefault)).flatMap Parameter.names =
        (arguments.flatMap (valueRoles engine.graph ·.type)).map (Role.name engine.layout) := by
    intro hasDefault arguments
    rw [List.flatMap_map, List.map_flatMap]
    simp only [names_argumentParameter]
  have hconfigurator : (if engine.graph.hasProjection field.type then
        [engine.configurator node field] else []).flatMap Parameter.names =
      (if engine.graph.hasProjection field.type then configuratorRoles engine.graph node field
        else []).map (Role.name engine.layout) := by
    split
    · simp [names_configurator]
    · rfl
  have hothers : (if engine.graph.isSelection field then [] else
        (field.arguments.filter (·.isInitialized)).map
          (engine.argumentParameter true)).flatMap Parameter.names =
      (if engine.graph.isSelection field then []
        else (field.arguments.filter (·.isInitialized)).flatMap
          (valueRoles engine.graph ·.type)).map (Role.name engine.layout) := by
    split
    · rfl
    · exact harguments true _
  simp only [Member.names, reduceCtorEq, if_false, List.nil_append, selector, selectorParameters,
    selectorRoles, List.flatMap_append, List.map_append, harguments, hothers, hconfigurator]

/-- An abstraction names itself, what it extends and what its members name. -/
theorem names_entity (node : Node) :
    (engine.entity node).names =
      (entityRoles engine.graph node).map (Role.name engine.layout) := by
  have hmembers : ∀ field, Member.names .entity (.property (engine.accessor field)) =
      (valueRoles engine.graph field.type).map (Role.name engine.layout) := by
    intro field
    exact engine.names_valueType field.type
  simp only [Abstraction.names, entity, entityRoles, List.flatMap_map, hmembers, List.map_append,
    List.map_cons, List.map_map, List.map_flatMap]
  rfl

/-- The selection view of a node names itself, what it extends and what its selectors name. -/
theorem names_projection (node : Node) :
    (engine.projection node).names =
      (projectionRoles engine.graph node).map (Role.name engine.layout) := by
  simp only [Abstraction.names, projection, projectionRoles, List.flatMap_map, names_selector,
    List.map_append, List.map_cons, List.map_map, List.map_flatMap]
  rfl

/-- Selection per subtype names itself, and for each subtype a member with its projection. -/
theorem names_qualificationOf (node : Node) :
    (engine.qualificationOf node).names =
      (qualificationRoles engine.graph node).map (Role.name engine.layout) := by
  simp only [Abstraction.names, qualificationOf, qualificationRoles, List.flatMap_map,
    List.map_cons, List.map_flatMap]
  rfl

/-- The setters of a field name what the types of its arguments refer to. -/
theorem names_selection (node : Node) (field : Field) :
    (engine.selection node field).names =
      (selectionRoles engine.graph node field).map (Role.name engine.layout) := by
  have hmembers : ∀ argument, Member.names .selection (.property (engine.setter argument)) =
      (valueRoles engine.graph argument.type).map (Role.name engine.layout) := by
    intro argument
    exact engine.names_valueType argument.type
  simp only [Abstraction.names, selection, selectionRoles, List.flatMap_map, hmembers,
    List.map_cons, List.map_flatMap]
  rfl

/-- The query of a field names its selection and what selects its value. -/
theorem names_query (node : Node) (field : Field) :
    (engine.query node field).names =
      (queryRoles engine.graph node field).map (Role.name engine.layout) := by
  simp only [Abstraction.names, query, queryRoles, nestedProjection_eq_name, List.map_cons,
    List.map_nil]
  rfl

/-- The names in the plan of a node are those of its roles. -/
theorem names_derived (node : Node) :
    (engine.derived node).names =
      (nodeRoles engine.graph node).map (List.map (Role.name engine.layout)) := by
  have hselections : (engine.selections node).map Abstraction.names =
      ((node.fields.filter engine.graph.isSelection).flatMap fun field =>
        [selectionRoles engine.graph node field, queryRoles engine.graph node field]).map
          (List.map (Role.name engine.layout)) := by
    simp only [selections, List.map_flatMap, List.map_cons, List.map_nil, names_selection,
      names_query]
  have hqualified : (engine.qualifiedProjectionOf node).names =
      (qualifiedProjectionRoles node).map (Role.name engine.layout) := rfl
  cases h : node.kind <;>
    simp only [NodePlan.names, derived, abstractions, nodeRoles, selectedFields, h, hselections,
      Kind.hasEntity, if_true, Bool.false_eq_true, if_false, List.map_append, List.map_cons,
      List.map_nil, names_entity, names_projection, names_qualificationOf, hqualified] <;>
    rfl

end Names

end Engine

section Layouts

variable (graph : Graph) (first second : Layout)

/-- Decorations only rename. Under any two layouts every graph yields plans that are the same once
the names that a layout gives are erased. What the erased names stand for is the same in both
runs, and each of them is the name of what it stands for in the layout of its run, so that within
one run the names of one thing are one text. -/
theorem erased_plans_eq :
    ∃ plans twins, (Engine.mk graph first).plans = .ok plans ∧
      (Engine.mk graph second).plans = .ok twins ∧
      plans.map NodePlan.erased = twins.map NodePlan.erased ∧
      plans.map NodePlan.names =
        graph.nodes.map (fun node => (nodeRoles graph node).map (List.map (Role.name first))) ∧
      twins.map NodePlan.names =
        graph.nodes.map fun node => (nodeRoles graph node).map (List.map (Role.name second)) := by
  have hnames : ∀ layout,
      (graph.nodes.map (Engine.mk graph layout).derived).map NodePlan.names =
        graph.nodes.map fun node => (nodeRoles graph node).map (List.map (Role.name layout)) := by
    intro layout
    rw [List.map_map]
    exact List.map_congr_left fun node _ => (Engine.mk graph layout).names_derived node
  refine ⟨_, _, Engine.plansOf_eq _ _, Engine.plansOf_eq _ _, ?_, hnames first, hnames second⟩
  rw [List.map_map, List.map_map]
  exact List.map_congr_left fun node _ => Engine.erased_derived graph first second node

variable {first second}

/-- Layouts that give the same names to what a graph has yield the same plans, whatever else they
say. -/
theorem plans_eq_of_names_eq
    (h : ∀ node ∈ graph.nodes, ∀ roles ∈ nodeRoles graph node, ∀ role ∈ roles,
      role.name first = role.name second) :
    (Engine.mk graph first).plans = (Engine.mk graph second).plans := by
  have hderived : ∀ node ∈ graph.nodes,
      (Engine.mk graph first).derived node = (Engine.mk graph second).derived node := by
    intro node hnode
    apply NodePlan.eq_of_erased_eq (Engine.erased_derived graph first second node)
    rw [Engine.names_derived, Engine.names_derived]
    apply List.map_congr_left
    intro roles hroles
    exact List.map_congr_left (h node hnode roles hroles)
  rw [Engine.plans, Engine.plans, Engine.plansOf_eq, Engine.plansOf_eq]
  exact congrArg Except.ok (List.map_congr_left hderived)

end Layouts

end QuerySurface.Plan
