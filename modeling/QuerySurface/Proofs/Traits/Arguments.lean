import QuerySurface.Proofs.Plan.References
import QuerySurface.Proofs.Traits.Inherited

/-!
# Arguments of selectors

A field that overrides another may have arguments that the other does not have. Its selector is left
out all the same, since what is overridden goes by the name alone, and the selector that is
declared in its place takes the arguments of its own field. Here it is said exactly which
arguments a node offers for a field: those of the field where following the overridden fields
ends, unless this field has a selection that takes them.
-/

namespace QuerySurface.Traits

open Plan (NodePlan Method Engine View generate)
open Schema (Graph Node Field Argument SchemaStep Strictness)

/-- A method takes a value under some name. -/
def Takes (method : Method) (name : String) : Prop :=
  ∃ parameter ∈ method.parameters, parameter.name = name ∧ parameter.type.target? = none

/-- What a node offers for the selection of a field, be it declared in the trait of the node or
inherited, takes a value under some name. -/
def OffersArgument (engine : Engine) (plans : List NodePlan) (node : Node) (field : Field)
    (name : String) : Prop :=
  ∃ passed last owner, Offers engine plans .projection node field passed last ∧
    owner ∈ engine.graph.nodes ∧ owner.name = last.owner ∧ Takes (engine.selector owner last) name

/-- What configures a selection is no value. -/
theorem target?_configurator (engine : Engine) (owner : Node) (field : Field) :
    (engine.configurator owner field).type.target? ≠ none := by
  rw [Engine.configurator]
  split <;> simp [Plan.TypeExpr.target?]

/-- A selector takes the arguments of its field, unless the field has a selection, which takes
them then. -/
theorem takes_selector_iff (engine : Engine) (owner : Node) (field : Field) (name : String) :
    Takes (engine.selector owner field) name ↔
      engine.graph.isSelection field = false ∧
        ∃ argument ∈ field.arguments, argument.name = name := by
  constructor
  · rintro ⟨parameter, hp, rfl, ht⟩
    rcases engine.mem_selectorParameters_iff.mp hp with ⟨hs, argument, ha, rfl⟩ | ⟨_, rfl⟩
    · exact ⟨hs, argument, ha, rfl⟩
    · exact absurd ht (target?_configurator engine owner field)
  · rintro ⟨hs, argument, ha, rfl⟩
    exact ⟨_, engine.mem_selectorParameters_iff.mpr (.inl ⟨hs, argument, ha, rfl⟩), rfl,
      engine.target?_valueType argument.type⟩

/-- An argument is offered exactly if the field where following the overridden fields ends has it,
and has no selection. -/
theorem offersArgument_derived_iff {engine : Engine} (hp : engine.graph.Placed) {node : Node}
    {field : Field} (hat : View.At .projection engine.graph node field) (name : String) :
    OffersArgument engine (engine.graph.nodes.map engine.derived) node field name ↔
      ∃ passed last, View.Ends .projection engine.graph field passed last ∧
        engine.graph.isSelection last = false ∧
          ∃ argument ∈ last.arguments, argument.name = name := by
  constructor
  · rintro ⟨passed, last, owner, ho, -, -, ht⟩
    exact ⟨passed, last, ho.ends, (takes_selector_iff engine owner last name).mp ht⟩
  · rintro ⟨passed, last, he, htakes⟩
    obtain ⟨-, -, -, owner, howner, -⟩ := he.exists_owner hp hat
    exact ⟨passed, last, owner, offers_of_ends hp he hat, howner.node_mem,
      (hp.owner owner howner.node_mem last howner.field_mem).2.symm,
      (takes_selector_iff engine owner last name).mpr htakes⟩

/-- Which arguments a node offers for a field that has no selection. For every graph that was built
and every accepted layout that wants every family, a value is taken for an argument exactly if
following the overridden fields that have a selector ends, at a field without a selection that
has an argument of that name. So the arguments of a field that is not inherited are all
offered, and if interfaces do not implement each other in a circle, those of an inherited one
are as far as the last field on the way shares them. -/
theorem offersArgument_iff {id : Schema.GraphId} {strictness : Strictness}
    {steps : List SchemaStep} {graph : Graph} {layout : Layout}
    (hb : Graph.build id strictness steps = .ok graph) (hc : layout.check = .ok ())
    (hf : layout.families = .all) :
    ∃ plans, generate graph layout = .ok plans ∧
      ∀ node field, View.At .projection graph node field → graph.isSelection field = false →
        ∀ argument ∈ field.arguments,
          (OffersArgument ⟨graph, layout⟩ plans node field argument.name ↔
            ∃ passed last, View.Ends .projection graph field passed last ∧
              graph.isSelection last = false ∧
                ∃ other ∈ last.arguments, other.name = argument.name) ∧
          (View.above? .projection graph field = none →
            OffersArgument ⟨graph, layout⟩ plans node field argument.name) := by
  have hp := Graph.placed_of_build hb
  refine ⟨Plan.wantedPlans graph layout, Plan.generate_eq hc, ?_⟩
  rw [Plan.wantedPlans_of_all graph hf]
  intro node field hat hs argument ha
  have hiff : OffersArgument ⟨graph, layout⟩ _ node field argument.name ↔ _ :=
    offersArgument_derived_iff hp hat argument.name
  refine ⟨hiff, ?_⟩
  intro hown
  exact hiff.mpr ⟨[], field, .here hown, hs, argument, ha, rfl⟩

/-- A schema in which an object adds an argument to a field of the interface that it implements. -/
def localeSteps : List SchemaStep :=
  [ .node "String" .scalar [],
    .node "Animal" .interface [.field "name" ⟨"String", false, true⟩ false false []],
    .node "Dog" .object
      [ .implements "Animal",
        .field "name" ⟨"String", false, true⟩ false false
          [.argument "locale" ⟨"String", false, true⟩ false []] ] ]

/-- In a graph that was built from this schema the name of a dog takes a locale, and that of an
animal takes nothing. -/
structure AddsArgument (graph : Graph) (dog : Node) (field next : Field) (argument : Argument) :
    Prop where
  /-- The schema can be built. -/
  built : Graph.build ⟨0⟩ .strict localeSteps = .ok graph
  /-- The view of a dog shows the field. -/
  place : View.At .projection graph dog field
  /-- The field has no selection. -/
  unselected : graph.isSelection field = false
  /-- The argument belongs to the field. -/
  argument_mem : argument ∈ field.arguments
  /-- The field overrides another one. -/
  inherited : View.above? .projection graph field = some next
  /-- That one is not inherited. -/
  own : View.above? .projection graph next = none
  /-- It has no arguments. -/
  bare : next.arguments = []

/-- There is such a graph. -/
theorem exists_addsArgument : ∃ graph dog field next argument,
    AddsArgument graph dog field next argument := by
  obtain ⟨graph, dog, field, next, argument, hb, hd, hf, hk, hr, hs, ha, hn, ho, he⟩ :
      ∃ graph dog field next argument, Graph.build ⟨0⟩ .strict localeSteps = .ok graph ∧
        graph.node? "Dog" = some dog ∧ dog.field? "name" = some field ∧
        dog.kind.hasEntity = true ∧ field.required = false ∧ graph.isSelection field = false ∧
        field.argument? "locale" = some argument ∧
        View.above? .projection graph field = some next ∧
        View.above? .projection graph next = none ∧ next.arguments = [] :=
    ⟨_, _, _, _, _, rfl, rfl, rfl, rfl, rfl, rfl, rfl, rfl, rfl, rfl⟩
  have hat : View.At .projection graph dog field :=
    ⟨Catalog.mem_of_find? hd, hk, Catalog.mem_of_find? hf, by simp [View.shows, hr]⟩
  exact ⟨graph, dog, field, next, argument, hb, hat, hs, Catalog.mem_of_find? ha, hn, ho, he⟩

/-- The law of arguments holds where an object adds an argument. -/
theorem offersArgument_iff_locale :
    ∃ graph plans dog field next argument, AddsArgument graph dog field next argument ∧
      Layout.usual.check = .ok () ∧ Layout.usual.families = .all ∧
      generate graph .usual = .ok plans ∧
      (OffersArgument ⟨graph, .usual⟩ plans dog field argument.name ↔
        ∃ passed last, View.Ends .projection graph field passed last ∧
          graph.isSelection last = false ∧
            ∃ other ∈ last.arguments, other.name = argument.name) := by
  obtain ⟨graph, dog, field, next, argument, h⟩ := exists_addsArgument
  have hc : Layout.usual.check = .ok () := rfl
  have hf : Layout.usual.families = .all := rfl
  obtain ⟨plans, hg, hlaw⟩ := offersArgument_iff h.built hc hf
  have hiff := hlaw dog field h.place h.unselected argument h.argument_mem
  exact ⟨graph, plans, dog, field, next, argument, h, hc, hf, hg, hiff.1⟩

/-- Arguments are lost: the name of a dog takes a locale, and the selector that is inherited from
the animal in its place does not. -/
theorem not_offersArgument :
    ¬∀ (id : Schema.GraphId) (strictness : Strictness) (steps : List SchemaStep) (graph : Graph)
      (layout : Layout) (plans : List NodePlan) (node : Node) (field : Field)
      (argument : Argument), Graph.build id strictness steps = .ok graph →
        layout.check = .ok () → layout.families = .all → generate graph layout = .ok plans →
        View.At .projection graph node field → graph.isSelection field = false →
        argument ∈ field.arguments →
          OffersArgument ⟨graph, layout⟩ plans node field argument.name := by
  intro hall
  obtain ⟨graph, dog, field, next, argument, h⟩ := exists_addsArgument
  have hc : Layout.usual.check = .ok () := rfl
  have hoffers := hall _ _ _ graph .usual _ dog field argument h.built hc rfl
    (Plan.generate_eq hc) h.place h.unselected h.argument_mem
  rw [Plan.wantedPlans_of_all graph rfl] at hoffers
  obtain ⟨passed, last, he, -, other, ho, -⟩ :=
    (offersArgument_derived_iff (Graph.placed_of_build h.built) h.place _).mp hoffers
  obtain ⟨-, rfl⟩ := he.unique (.above h.inherited (.here h.own))
  rw [h.bare] at ho
  cases ho

end QuerySurface.Traits
