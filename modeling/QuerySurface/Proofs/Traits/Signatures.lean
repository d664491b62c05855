import QuerySurface.Proofs.Layout.Naming
import QuerySurface.Proofs.Plan.References
import QuerySurface.Proofs.Plan.Selectors
import QuerySurface.Proofs.Schema.Mentions
import QuerySurface.Proofs.Traits.Inherited
import QuerySurface.Proofs.Traits.Words

/-!
# Signatures in a trait

The names of methods and parameters come from the schema, or from the layout, in snake case and
with keywords escaped, and nothing compares them with each other. So it is said exactly when two
methods of a trait, or two parameters of a method, have one name: when the names that they are made
from clash.
-/

namespace QuerySurface.Traits

open Plan (Abstraction Engine Family Label Member Method NodePlan Nests Parameter Property View
  absentable generate nestedLabel unwantedNames)
open Schema (Argument Field Graph Node SchemaStep Strictness)
open Layout (Scalars)

/-! ## Clashes -/

/-- The fields whose members the trait of a view of a node declares: those that the view shows and
that override no field that it shows. -/
def ownFields (view : View) (graph : Graph) (node : Node) : List Field :=
  node.fields.filter fun field => view.shows field && (view.above? graph field).isNone

/-- Two of several things have names that clash. -/
def ClashAmong {α : Type} (items : List α) (name : α → String) : Prop :=
  ∃ item ∈ items, ∃ other ∈ items, item ≠ other ∧ Clash (name item) (name other)

/-- Two arguments that the selection of a field sets are the same words. A setter has its words
behind another one and is never escaped, so nothing else makes two of them alike. -/
def SetterClash (field : Field) : Prop :=
  ∃ argument ∈ absentable field, ∃ other ∈ absentable field,
    argument ≠ other ∧ words argument.name = words other.name

/-- Two methods in the trait of an abstraction of a node, given by its family and field, are made
from names that clash. -/
def MethodClash (graph : Graph) (layout : Layout) (node : Node) : Family → Option String → Prop
  | .entity, _ => ClashAmong (ownFields .entity graph node) Field.name
  | .projection, _ => ClashAmong (ownFields .projection graph node) Field.name
  | .qualification, _ =>
    ClashAmong (graph.possibleObjects node) fun object =>
      layout.decorations.onSubtypeName object.name
  | .selection, name => ∃ field ∈ node.fields, name = some field.name ∧ SetterClash field
  | .qualifiedProjection, _ | .query, _ => False

/-- Two parameters of the selector of a field are made from names that clash. -/
inductive SelectorClash (graph : Graph) (layout : Layout) (field : Field) : Prop
  /-- Two arguments. -/
  | arguments (unselected : graph.isSelection field = false)
      (clash : ClashAmong field.arguments Argument.name) : SelectorClash graph layout field
  /-- An argument, and the parameter that the layout names for what is selected of the value. -/
  | configurator {argument : Argument} {target : Node}
      (unselected : graph.isSelection field = false) (argument_mem : argument ∈ field.arguments)
      (nests : Nests graph field target) (free : (nestedLabel target).isFree graph layout = true)
      (clash : Clash argument.name layout.parameters.projection) :
      SelectorClash graph layout field

/-- Two parameters of a method in the trait of an abstraction of a node, given by its family, are
made from names that clash. -/
def ParameterClash (graph : Graph) (layout : Layout) (node : Node) (family : Family) : Prop :=
  family = .projection ∧ ∃ field ∈ ownFields .projection graph node,
    SelectorClash graph layout field

/-- Types, fields and arguments have names. -/
structure WellNamed (graph : Graph) : Prop where
  /-- The types. -/
  nodes : ∀ node ∈ graph.nodes, Text.IsName node.name.toList
  /-- The fields. -/
  fields : ∀ node ∈ graph.nodes, ∀ field ∈ node.fields, Text.IsName field.name.toList
  /-- The arguments. -/
  arguments : ∀ node ∈ graph.nodes, ∀ field ∈ node.fields, ∀ argument ∈ field.arguments,
    Text.IsName argument.name.toList

/-! ## Own members -/

section members

variable {engine : Engine} {node : Node} {scalars : Scalars} {removed : List String}

/-- The own members of a view are those of its own fields. -/
theorem ownMembers_abstraction (view : View) :
    ownMembers (view.abstraction engine node) =
      (ownFields view engine.graph node).map (view.member engine node) := by
  rw [ownMembers, View.members_abstraction, List.filter_map, List.filter_filter, ownFields]
  congr 1
  apply List.filter_congr
  intro field _
  rw [Function.comp_apply, View.isOverride_member, Bool.and_comm]
  cases view.above? engine.graph field <;> rfl

/-- No narrowing is inherited. -/
theorem ownMembers_qualificationOf :
    ownMembers (engine.qualificationOf node) =
      (engine.graph.possibleObjects node).map fun object => .method (engine.narrowing object) := by
  rw [ownMembers, Engine.qualificationOf, List.filter_eq_self]
  intro member hm
  obtain ⟨object, -, rfl⟩ := List.mem_map.mp hm
  rfl

/-- No setter is inherited. -/
theorem ownMembers_selection (field : Field) :
    ownMembers (engine.selection node field) =
      (absentable field).map fun argument => .property (engine.setter argument) := by
  rw [ownMembers, Engine.selection, List.filter_eq_self.mpr]
  · rfl
  · intro member hm
    obtain ⟨argument, -, rfl⟩ := List.mem_map.mp hm
    rfl

/-- Pruning leaves the own members of an abstraction its own. -/
theorem ownMembers_without (abstraction : Abstraction) :
    ownMembers (abstraction.without removed) =
      (ownMembers abstraction).map (Member.without removed) := by
  have hsame : ((!·.isOverride) ∘ Member.without removed) = (!·.isOverride) := by
    funext member
    cases member <;> rfl
  rw [ownMembers, Abstraction.without, List.filter_map, hsame, ownMembers]

/-- Pruning leaves a member its name. -/
theorem name_signature_without (member : Member) :
    (signature scalars (member.without removed)).name = (signature scalars member).name := by
  cases member <;> rfl

/-- The names of the methods in the trait of a pruned abstraction. -/
theorem names_signatures_without (abstraction : Abstraction) :
    (signatures scalars (abstraction.without removed)).map Signature.name =
      (ownMembers abstraction).map fun member => (signature scalars member).name := by
  rw [signatures, ownMembers_without, List.map_map, List.map_map]
  exact List.map_congr_left fun member _ => name_signature_without member

end members

/-! ## Names of methods -/

/-- Names that are made of different things are different exactly if no two of the things make one
name. -/
theorem nodup_map_iff_not_exists {α : Type} {items : List α} (hn : items.Nodup)
    (name : α → String) :
    (items.map name).Nodup ↔
      ¬∃ item ∈ items, ∃ other ∈ items, item ≠ other ∧ name item = name other := by
  rw [List.nodup_map_iff_inj_on hn]
  constructor
  · rintro h ⟨item, hi, other, ho, hne, he⟩
    exact hne (h item hi other ho he)
  · intro h item hi other ho he
    by_contra hne
    exact h ⟨item, hi, other, ho, hne, he⟩

/-- Identifiers of different things are different exactly if no two of their names clash. -/
theorem nodup_identifiers_iff {α : Type} {items : List α} (hn : items.Nodup) {name : α → String}
    (hw : ∀ item ∈ items, IsWord (name item)) :
    (items.map fun item => identifier (name item)).Nodup ↔ ¬ClashAmong items name := by
  rw [nodup_map_iff_not_exists hn]
  refine not_congr (exists_congr fun item => and_congr_right fun hi => exists_congr fun other =>
    and_congr_right fun ho => and_congr_right fun _ => ?_)
  exact identifier_eq_iff (hw item hi) (hw other ho)

section names

variable {graph : Graph} {layout : Layout} {node : Node} {scalars : Scalars}
  {removed : List String}

/-- The methods of a view are named apart exactly if no two of its own fields clash. -/
theorem nodup_names_view (hp : graph.Placed) (hw : WellNamed graph) (hn : node ∈ graph.nodes)
    (view : View) :
    ((signatures scalars ((view.abstraction ⟨graph, layout⟩ node).without removed)).map
        Signature.name).Nodup ↔
      ¬ClashAmong (ownFields view graph node) Field.name := by
  rw [names_signatures_without, ownMembers_abstraction, List.map_map]
  have hnodup : (ownFields view graph node).Nodup :=
    (List.Nodup.of_map _ (hp.fields node hn)).filter _
  have hname : ((fun member => (signature scalars member).name) ∘
      view.member ⟨graph, layout⟩ node) = fun field => identifier field.name := by
    funext field
    exact name_signature_member _ scalars view node field
  rw [hname]
  refine nodup_identifiers_iff hnodup fun field hf => ?_
  exact isWord_of_isName (hw.fields node hn field (List.mem_filter.mp hf).1)

/-- The methods that narrow are named apart exactly if no two of their decorated names clash. -/
theorem nodup_names_qualification (hp : graph.Placed) (hw : WellNamed graph)
    (hc : Layout.Accepted layout) (hn : node ∈ graph.nodes) :
    ((signatures scalars
        ((Engine.mk graph layout).qualificationOf node |>.without removed)).map
          Signature.name).Nodup ↔
      ¬ClashAmong (graph.possibleObjects node) fun object =>
        layout.decorations.onSubtypeName object.name := by
  rw [names_signatures_without, ownMembers_qualificationOf, List.map_map]
  refine nodup_identifiers_iff (hp.nodup_possibleObjects hn) fun object ho => ?_
  have hobject : Text.IsName object.name.toList :=
    hw.nodes object (Schema.mem_possibleObjects ho).1
  exact isWord_of_isName (Layout.Decoration.isName_apply hc.wellFormed_onSubtype hobject)

/-- The methods that set arguments are named apart exactly if no two of the arguments are the same
words. -/
theorem nodup_names_selection {field : Field} (ha : (Catalog.names field.arguments).Nodup) :
    ((signatures scalars
        ((Engine.mk graph layout).selection node field |>.without removed)).map
          Signature.name).Nodup ↔
      ¬SetterClash field := by
  have hnodup : (absentable field).Nodup := (List.Nodup.of_map _ ha).filter _
  rw [names_signatures_without, ownMembers_selection, List.map_map,
    nodup_map_iff_not_exists hnodup, SetterClash]
  refine not_congr (exists_congr fun argument => and_congr_right fun _ => exists_congr fun other =>
    and_congr_right fun _ => and_congr_right fun _ => ?_)
  rw [← snakeCase_eq_iff]
  exact String.append_right_inj "set_"

/-- The methods in the trait of an abstraction are named apart exactly if none of its names
clash. -/
theorem nodup_names_iff (hp : graph.Placed) (hw : WellNamed graph) (hc : Layout.Accepted layout)
    (hn : node ∈ graph.nodes)
    (ha : ∀ field ∈ node.fields, (Catalog.names field.arguments).Nodup)
    {abstraction : Abstraction} (hm : abstraction ∈ (Engine.mk graph layout).abstractions node) :
    ((signatures scalars (abstraction.without removed)).map Signature.name).Nodup ↔
      ¬MethodClash graph layout node abstraction.family abstraction.field := by
  obtain ⟨-, rfl | rfl | ⟨-, rfl | rfl⟩ | ⟨field, hf, -, rfl | rfl⟩⟩ :=
    Engine.mem_abstractions_iff _ |>.mp hm
  · exact nodup_names_view hp hw hn .entity
  · exact nodup_names_view hp hw hn .projection
  · exact nodup_names_qualification hp hw hc hn
  · exact iff_of_true .nil id
  · refine (nodup_names_selection (ha field hf)).trans (not_congr ?_)
    refine ⟨fun h => ⟨field, hf, rfl, h⟩, ?_⟩
    rintro ⟨other, ho, he, h⟩
    exact Catalog.eq_of_name_eq (hp.fields node hn) hf ho (Option.some.inj he) ▸ h
  · exact iff_of_true .nil id

end names

/-! ## Names of parameters -/

/-- The parameters of a method are named apart if their identifiers are; none of these is the word
for the receiver. -/
theorem nodup_parameterNames_method (scalars : Scalars) (method : Method) :
    (signature scalars (.method method)).parameterNames.Nodup ↔
      ((method.parameters.map Parameter.name).map identifier).Nodup := by
  have hnames : (signature scalars (.method method)).parameters.map Prod.fst =
      (method.parameters.map Parameter.name).map identifier := by
    rw [signature, List.map_map, List.map_map]
    rfl
  rw [Signature.parameterNames, hnames, List.nodup_cons, and_iff_right]
  intro h
  obtain ⟨name, -, he⟩ := List.mem_map.mp h
  exact identifier_ne_self name he

/-- The parameters of a property are named apart. -/
theorem nodup_parameterNames_property (scalars : Scalars) (property : Property) :
    (signature scalars (.property property)).parameterNames.Nodup := by
  rw [signature]
  cases property.isMutable with
  | true => exact (by decide : ["self", "value"].Nodup)
  | false => exact List.nodup_singleton _

section parameters

variable {graph : Graph} {layout : Layout} {node : Node} {field : Field} {scalars : Scalars}

/-- What configures an abstraction stays if no name goes that is the one of its label. -/
theorem stays_configurator (graph : Graph) (layout : Layout) (name : String) (label : Label) :
    Parameter.stays (unwantedNames graph layout)
        ⟨name, .configurator (label.name layout.decorations), true, []⟩ =
      label.isFree graph layout :=
  (congrArg not (Label.contains_unwantedNames graph layout label)).trans (Bool.not_not _)

/-- What configures the value of a field in its selector, as far as it stays. -/
def configuring (graph : Graph) (layout : Layout) (node : Node) (field : Field) :
    List Parameter :=
  (if graph.hasProjection field.type then [(Engine.mk graph layout).configurator node field]
    else []).filter (Parameter.stays (unwantedNames graph layout))

/-- What configures the value of a field is one parameter at most. -/
theorem nodup_configuring (name : Parameter → String) :
    ((configuring graph layout node field).map name).Nodup := by
  rw [configuring]
  split
  · exact (List.filter_sublist.map name).nodup (List.nodup_singleton _)
  · exact .nil

/-- What configures the value of a field stays if the value has a projection and no name goes that
it configures. -/
theorem mem_names_configuring_iff {name : String} :
    name ∈ (configuring graph layout node field).map Parameter.name ↔
      name = ((Engine.mk graph layout).configurator node field).name ∧
        graph.hasProjection field.type = true ∧
          ((Engine.mk graph layout).configurator node field).stays (unwantedNames graph layout) =
            true := by
  rw [configuring]
  cases hprojection : graph.hasProjection field.type with
  | false => simp
  | true =>
    cases hstays : ((Engine.mk graph layout).configurator node field).stays
        (unwantedNames graph layout) with
    | false => simp [hstays]
    | true => simp [hstays]

/-- Without a selection of the field, what selects the value has the name that the layout gives it,
and stays if no name goes that it configures. -/
theorem mem_configuring_iff (node : Node) (hs : graph.isSelection field = false) {name : String} :
    name ∈ (configuring graph layout node field).map Parameter.name ↔
      name = layout.parameters.projection ∧
        ∃ target, Nests graph field target ∧ (nestedLabel target).isFree graph layout = true := by
  have hname : ((Engine.mk graph layout).configurator node field).name =
      layout.parameters.projection := by
    rw [Engine.configurator, if_neg (by simp [hs])]
  have hstays {target : Node} (h : Nests graph field target) :
      ((Engine.mk graph layout).configurator node field).stays (unwantedNames graph layout) =
        (nestedLabel target).isFree graph layout := by
    rw [Engine.configurator, if_neg (by simp [hs]), Engine.nestedProjection_eq _ h.1]
    exact stays_configurator graph layout _ (nestedLabel target)
  rw [mem_names_configuring_iff, hname, Plan.hasProjection_iff]
  refine and_congr_right fun _ => ⟨?_, ?_⟩
  · rintro ⟨⟨target, hn⟩, hstay⟩
    exact ⟨target, hn, hstays hn ▸ hstay⟩
  · rintro ⟨target, hn, hfree⟩
    exact ⟨⟨target, hn⟩, hstays hn ▸ hfree⟩

/-- With a selection of the field, what configures it has the name that the layout gives to
parameters of queries, and stays if no name of the query goes. -/
theorem mem_configuring_iff_of_isSelection (hs : graph.isSelection field = true) {name : String} :
    name ∈ (configuring graph layout node field).map Parameter.name ↔
      name = layout.parameters.query ∧
        (Label.ofField .query node field).isFree graph layout = true := by
  have hname : ((Engine.mk graph layout).configurator node field).name =
      layout.parameters.query := by
    rw [Engine.configurator, if_pos hs]
  have hstays : ((Engine.mk graph layout).configurator node field).stays
      (unwantedNames graph layout) = (Label.ofField .query node field).isFree graph layout := by
    rw [Engine.configurator, if_pos hs]
    exact stays_configurator graph layout _ (Label.ofField .query node field)
  have hprojection : graph.hasProjection field.type = true := (Bool.and_eq_true_iff.mp hs).1
  rw [mem_names_configuring_iff, hname, hstays, and_iff_right hprojection]

/-- The parameters of a selector that stay are those of the arguments that have to be given; those
of the others, unless the field has a selection; and what configures the value. -/
theorem filter_selectorParameters :
    ((Engine.mk graph layout).selectorParameters node field).filter
        (Parameter.stays (unwantedNames graph layout)) =
      (field.arguments.filter (!·.isInitialized)).map
          ((Engine.mk graph layout).argumentParameter false) ++
        (if graph.isSelection field then []
          else (field.arguments.filter (·.isInitialized)).map
            ((Engine.mk graph layout).argumentParameter true)) ++
        configuring graph layout node field := by
  have hstay (hasDefault : Bool) (arguments : List Argument) :
      (arguments.map ((Engine.mk graph layout).argumentParameter hasDefault)).filter
          (Parameter.stays (unwantedNames graph layout)) =
        arguments.map ((Engine.mk graph layout).argumentParameter hasDefault) := by
    rw [List.filter_eq_self]
    intro parameter hp
    obtain ⟨argument, -, rfl⟩ := List.mem_map.mp hp
    simp [Parameter.stays, Engine.argumentParameter, Engine.target?_valueType]
  rw [Engine.selectorParameters, List.filter_append, List.filter_append, hstay, configuring]
  cases graph.isSelection field <;> simp [hstay]

/-- The names in the selector of a field without a selection are those of its arguments, in some
order, and that of what configures its value. -/
theorem perm_names_selector (hs : graph.isSelection field = false) :
    ((((Engine.mk graph layout).selectorParameters node field).filter
        (Parameter.stays (unwantedNames graph layout))).map Parameter.name).Perm
      (Catalog.names field.arguments ++
        (configuring graph layout node field).map Parameter.name) := by
  have hname (hasDefault : Bool) (arguments : List Argument) :
      (arguments.map ((Engine.mk graph layout).argumentParameter hasDefault)).map Parameter.name =
        Catalog.names arguments :=
    List.map_map
  rw [filter_selectorParameters, hs, if_neg Bool.false_ne_true, List.map_append, List.map_append,
    hname, hname, Catalog.names, Catalog.names, ← List.map_append]
  refine List.Perm.append_right _ (List.Perm.map _ ?_)
  exact List.perm_append_comm.trans (List.filter_append_perm (·.isInitialized) field.arguments)

/-- The selector of a field with a selection has no parameter but what configures its value. -/
theorem filter_selectorParameters_of_isSelection (hs : graph.isSelection field = true) :
    ((Engine.mk graph layout).selectorParameters node field).filter
        (Parameter.stays (unwantedNames graph layout)) = configuring graph layout node field := by
  -- All arguments may be left out, so none of them has to be given.
  have hall : field.arguments.filter (!·.isInitialized) = [] := by
    simpa using (Bool.and_eq_true_iff.mp hs).2
  rw [filter_selectorParameters, hs, hall, if_pos rfl]
  rfl

/-- The names of the arguments of a field and of what configures its value make different
identifiers exactly if its selector has no clash. -/
theorem nodup_identifiers_selector (hs : graph.isSelection field = false)
    (ha : field.arguments.Nodup) (hw : ∀ argument ∈ field.arguments, IsWord argument.name)
    (hq : IsWord layout.parameters.projection) :
    ((Catalog.names field.arguments ++
        (configuring graph layout node field).map Parameter.name).map identifier).Nodup ↔
      ¬SelectorClash graph layout field := by
  have harguments : ((Catalog.names field.arguments).map identifier).Nodup ↔
      ¬ClashAmong field.arguments Argument.name := by
    rw [Catalog.names, List.map_map]
    exact nodup_identifiers_iff ha hw
  have hconfiguring : (((configuring graph layout node field).map Parameter.name).map
      identifier).Nodup := by
    rw [List.map_map]
    exact nodup_configuring _
  rw [List.map_append, List.nodup_append, harguments, and_iff_right hconfiguring]
  constructor
  · rintro ⟨hapart, hacross⟩ (⟨-, hclash⟩ | ⟨-, hm, hn, hfree, hclash⟩)
    · exact hapart hclash
    · have hname := (mem_configuring_iff node hs).mpr ⟨rfl, _, hn, hfree⟩
      exact hacross _ (List.mem_map_of_mem (List.mem_map_of_mem hm)) _ (List.mem_map_of_mem hname)
        ((identifier_eq_iff (hw _ hm) hq).mpr hclash)
  · intro h
    refine ⟨fun hclash => h (.arguments hs hclash), ?_⟩
    intro left hl right hr he
    obtain ⟨name, hname, rfl⟩ := List.mem_map.mp hl
    obtain ⟨argument, hm, rfl⟩ := List.mem_map.mp hname
    obtain ⟨other, hother, rfl⟩ := List.mem_map.mp hr
    obtain ⟨rfl, target, hn, hfree⟩ := (mem_configuring_iff node hs).mp hother
    exact h (.configurator hs hm hn hfree ((identifier_eq_iff (hw argument hm) hq).mp he))

/-- The parameters of a selector are named apart exactly if it has no clash. -/
theorem nodup_parameterNames_selector (graph : Graph) (node : Node) (scalars : Scalars)
    (ha : field.arguments.Nodup) (hw : ∀ argument ∈ field.arguments, IsWord argument.name)
    (hq : IsWord layout.parameters.projection) :
    (signature scalars ((Member.method ((Engine.mk graph layout).selector node field)).without
        (unwantedNames graph layout))).parameterNames.Nodup ↔
      ¬SelectorClash graph layout field := by
  refine (nodup_parameterNames_method scalars _).trans ?_
  rw [Engine.selector]
  cases hs : graph.isSelection field with
  | true =>
    rw [filter_selectorParameters_of_isSelection hs, List.map_map]
    refine iff_of_true (nodup_configuring _) ?_
    rintro (⟨hunselected, -⟩ | ⟨hunselected, -⟩) <;> simp [hs] at hunselected
  | false =>
    rw [((perm_names_selector hs).map identifier).nodup_iff]
    exact nodup_identifiers_selector hs ha hw hq

end parameters

/-- The parameters of the methods in the trait of an abstraction are named apart exactly if none of
their names clash. -/
theorem nodup_parameterNames_iff {graph : Graph} {layout : Layout} {node : Node}
    (hw : WellNamed graph) (hc : Layout.Accepted layout) (hn : node ∈ graph.nodes)
    (ha : ∀ field ∈ node.fields, (Catalog.names field.arguments).Nodup)
    {abstraction : Abstraction} (hm : abstraction ∈ (Engine.mk graph layout).abstractions node)
    (scalars : Scalars) :
    (∀ signature ∈ signatures scalars (abstraction.without (unwantedNames graph layout)),
        signature.parameterNames.Nodup) ↔
      ¬ParameterClash graph layout node abstraction.family := by
  have hq : IsWord layout.parameters.projection :=
    isWord_of_isName (Text.isIdentifier_iff.mp hc.projectionParameter)
  have hselector (field : Field) (hf : field ∈ ownFields .projection graph node) :=
    have hfield := (List.mem_filter.mp hf).1
    nodup_parameterNames_selector graph node scalars
      (List.Nodup.of_map _ (ha field hfield))
      (fun argument hm => isWord_of_isName (hw.arguments node hn field hfield argument hm)) hq
  rw [signatures, ownMembers_without, List.forall_mem_map, List.forall_mem_map]
  obtain ⟨-, rfl | rfl | ⟨-, rfl | rfl⟩ | ⟨field, -, -, rfl | rfl⟩⟩ :=
    Engine.mem_abstractions_iff _ |>.mp hm
  · refine iff_of_true ?_ fun h => Family.noConfusion h.1
    change ∀ member ∈ ownMembers (View.abstraction ⟨graph, layout⟩ .entity node), _
    rw [ownMembers_abstraction, List.forall_mem_map]
    exact fun field _ => nodup_parameterNames_property scalars _
  · change (∀ member ∈ ownMembers (View.abstraction ⟨graph, layout⟩ .projection node), _) ↔ _
    rw [ownMembers_abstraction, List.forall_mem_map]
    constructor
    · rintro h ⟨-, field, hf, hclash⟩
      exact (hselector field hf).mp (h field hf) hclash
    · exact fun h field hf => (hselector field hf).mpr fun hclash => h ⟨rfl, field, hf, hclash⟩
  · refine iff_of_true ?_ fun h => Family.noConfusion h.1
    rw [ownMembers_qualificationOf, List.forall_mem_map]
    intro object _
    refine (nodup_parameterNames_method scalars _).mpr ?_
    rw [List.map_map]
    exact (List.filter_sublist.map _).nodup (List.nodup_singleton _)
  · exact iff_of_true (List.forall_mem_nil _) fun h => Family.noConfusion h.1
  · refine iff_of_true ?_ fun h => Family.noConfusion h.1
    rw [ownMembers_selection, List.forall_mem_map]
    exact fun argument _ => nodup_parameterNames_property scalars _
  · exact iff_of_true (List.forall_mem_nil _) fun h => Family.noConfusion h.1

/-! ## Traits of a schema -/

/-- What the source of a node declares in the trait of an abstraction, and when its names are
different. -/
structure DeclaresApart (graph : Graph) (layout : Layout) (node : Node) (plan : NodePlan)
    (abstraction : Abstraction) : Prop where
  /-- The trait declares these signatures and nothing else. -/
  rendered : HoldsTrait (traitHead abstraction) (planLines layout.scalars plan)
    (separated ((signatures layout.scalars abstraction).map Signature.lines))
  /-- Methods have different names unless names clash. -/
  names : ((signatures layout.scalars abstraction).map Signature.name).Nodup ↔
    ¬MethodClash graph layout node abstraction.family abstraction.field
  /-- Parameters of each method have different names unless names clash. -/
  parameters :
    (∀ signature ∈ signatures layout.scalars abstraction, signature.parameterNames.Nodup) ↔
      ¬ParameterClash graph layout node abstraction.family

/-- When traits declare one name twice. For every graph that was built, whose types, fields and
arguments have names, and every accepted layout there are plans; the trait of each of their
abstractions has two methods of one name exactly if the names that they are made from clash, and a
method with two parameters of one name exactly if the names of these clash. -/
theorem declaresApart_of_build {id : Schema.GraphId} {strictness : Strictness}
    {steps : List SchemaStep} {graph : Graph} {layout : Layout}
    (hb : Graph.build id strictness steps = .ok graph) (hw : WellNamed graph)
    (hc : layout.check = .ok ()) :
    ∃ plans, generate graph layout = .ok plans ∧
      ∀ plan ∈ plans, ∃ node ∈ graph.nodes, plan.node = node.name ∧
        ∀ abstraction ∈ plan.abstractions, DeclaresApart graph layout node plan abstraction := by
  have hp := Graph.placed_of_build hb
  have haccepted := Layout.check_eq_ok_iff.mp hc
  refine ⟨_, Plan.generate_eq hc, fun plan hplan => ?_⟩
  rw [Plan.wantedPlans_eq_map] at hplan
  obtain ⟨node, hn, rfl⟩ := List.mem_map.mp hplan
  refine ⟨node, hn, rfl, fun abstraction hm => ?_⟩
  have ha (field : Field) (hf : field ∈ node.fields) : (Catalog.names field.arguments).Nodup :=
    Graph.nodup_arguments_of_build hb hn hf
  have hrendered := holdsTrait_signatures layout.scalars hm
  obtain ⟨whole, hwhole, rfl⟩ := List.mem_map.mp hm
  have hderived := (List.mem_filter.mp hwhole).1
  exact ⟨hrendered, nodup_names_iff hp hw haccepted hn ha hderived,
    nodup_parameterNames_iff hw haccepted hn ha hderived layout.scalars⟩

/-- A schema of an object with two fields of the same words, one of which takes two arguments of the
same words. -/
def ownerSteps : List SchemaStep :=
  [ .node "String" .scalar [],
    .node "Dog" .object
      [ .field "petOwner" ⟨"String", false, true⟩ false false
          [ .argument "self" ⟨"String", false, true⟩ false [],
            .argument "self_" ⟨"String", false, true⟩ false [] ],
        .field "pet_owner" ⟨"String", false, true⟩ false false [] ] ]

/-- The plans of this schema declare a method twice, and a parameter of a method twice. -/
theorem exists_owner :
    ∃ graph plans, Graph.build ⟨0⟩ .strict ownerSteps = .ok graph ∧ WellNamed graph ∧
      generate graph .usual = .ok plans ∧
      (∃ plan ∈ plans, ∃ abstraction ∈ plan.abstractions,
        ¬((signatures Layout.usual.scalars abstraction).map Signature.name).Nodup) ∧
      ∃ plan ∈ plans, ∃ abstraction ∈ plan.abstractions,
        ¬∀ signature ∈ signatures Layout.usual.scalars abstraction,
          signature.parameterNames.Nodup :=
  ⟨_, _, rfl, ⟨by decide, by decide, by decide⟩, rfl, by decide +kernel, by decide +kernel⟩

/-- The law of names holds for this schema, in which names clash. -/
theorem declaresApart_of_build_owner :
    ∃ graph plans, Graph.build ⟨0⟩ .strict ownerSteps = .ok graph ∧ WellNamed graph ∧
      Layout.usual.check = .ok () ∧ generate graph .usual = .ok plans ∧
      ∀ plan ∈ plans, ∃ node ∈ graph.nodes, plan.node = node.name ∧
        ∀ abstraction ∈ plan.abstractions, DeclaresApart graph .usual node plan abstraction := by
  obtain ⟨graph, -, hb, hw, -⟩ := exists_owner
  have hc : Layout.usual.check = .ok () := rfl
  obtain ⟨plans, hg, hplans⟩ := declaresApart_of_build hb hw hc
  exact ⟨graph, plans, hb, hw, hc, hg, hplans⟩

/-- Something holds of every abstraction that any accepted layout yields for any graph that was
built and whose types, fields and arguments have names. -/
def HoldsOfEvery (holds : Layout → Abstraction → Prop) : Prop :=
  ∀ (id : Schema.GraphId) (strictness : Strictness) (steps : List SchemaStep) (graph : Graph)
    (layout : Layout) (plans : List NodePlan), Graph.build id strictness steps = .ok graph →
      WellNamed graph → layout.check = .ok () → generate graph layout = .ok plans →
      ∀ plan ∈ plans, ∀ abstraction ∈ plan.abstractions, holds layout abstraction

/-- Neither methods nor parameters are always named apart: both fields of the dog are rendered as
`pet_owner`, and both arguments as `self_`. -/
theorem not_named_apart :
    (¬HoldsOfEvery fun layout abstraction =>
        ((signatures layout.scalars abstraction).map Signature.name).Nodup) ∧
      ¬HoldsOfEvery fun layout abstraction =>
        ∀ signature ∈ signatures layout.scalars abstraction, signature.parameterNames.Nodup := by
  obtain ⟨graph, plans, hb, hw, hg, hmethods, hparameters⟩ := exists_owner
  have hc : Layout.usual.check = .ok () := rfl
  constructor
  · intro hall
    obtain ⟨plan, hp, abstraction, ha, hclash⟩ := hmethods
    exact hclash (hall _ _ _ graph .usual plans hb hw hc hg plan hp abstraction ha)
  · intro hall
    obtain ⟨plan, hp, abstraction, ha, hclash⟩ := hparameters
    exact hclash (hall _ _ _ graph .usual plans hb hw hc hg plan hp abstraction ha)

end QuerySurface.Traits
