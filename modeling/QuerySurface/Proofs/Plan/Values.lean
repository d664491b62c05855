import QuerySurface.Proofs.Plan.Derived

/-!
# Types of values

Which types of values stand in the abstractions of a node can be read off the schema: those of
its fields in its entity, those of arguments in its projection and in the selections of its
fields. Everything else in a member configures an abstraction. Pruning takes configurators
away, but no type of a value.
-/

namespace QuerySurface.Plan

open Schema (Graph Node Field Argument TypeRef Kind)

/-- The types in a member. -/
def Member.types : Member → List TypeExpr
  | .property it => [it.type]
  | .method it => it.parameters.map Parameter.type

/-- A type of the schema that the wanted abstractions of a node show as the type of a value. -/
inductive Exposes (graph : Graph) (families : Layout.Families) (node : Node) : TypeRef → Prop where
  /-- The entity shows the type of every field. -/
  | accessor {field : Field} (mem : field ∈ node.fields)
      (wanted : Family.entity.isEnabled families = true) : Exposes graph families node field.type
  /-- The projection shows the arguments of every field that is not always fetched and has no
  selection. -/
  | selector {field : Field} {argument : Argument} (mem : field ∈ node.fields)
      (optional : field.required = false) (unselected : graph.isSelection field = false)
      (argument_mem : argument ∈ field.arguments)
      (wanted : Family.projection.isEnabled families = true) :
      Exposes graph families node argument.type
  /-- The selection of a field shows its arguments that may be absent. -/
  | setter {field : Field} {argument : Argument} (mem : field ∈ node.fields)
      (selected : graph.isSelection field = true) (argument_mem : argument ∈ field.arguments)
      (nullable : argument.type.nullable = true)
      (wanted : Family.selection.isEnabled families = true) :
      Exposes graph families node argument.type

/-- A type refers to a node that has an entity. -/
def NamesEntity (graph : Graph) (type : TypeRef) : Prop :=
  ∃ target, graph.referenced? type = some target ∧ target.kind.hasEntity = true

/-! ## Types as they are derived -/

namespace Engine

variable (engine : Engine)

/-- A value configures nothing. -/
theorem target?_valueType (type : TypeRef) : (engine.valueType type).target? = none := by
  unfold valueType
  split <;> rfl

/-- The parameters of a selector are the arguments of a field that has no selection, and a
configurator if the value of the field has a projection. -/
theorem mem_selectorParameters_iff {node : Node} {field : Field} {parameter : Parameter} :
    parameter ∈ engine.selectorParameters node field ↔
      (engine.graph.isSelection field = false ∧ ∃ argument ∈ field.arguments,
          engine.argumentParameter argument.isInitialized argument = parameter) ∨
        (engine.graph.hasProjection field.type = true ∧
          parameter = engine.configurator node field) := by
  have hconfigurator : parameter ∈ (if engine.graph.hasProjection field.type then
        [engine.configurator node field] else []) ↔
      engine.graph.hasProjection field.type = true ∧
        parameter = engine.configurator node field := by
    cases engine.graph.hasProjection field.type <;> simp
  rw [selectorParameters, List.mem_append, hconfigurator]
  refine or_congr_left ?_
  cases hs : engine.graph.isSelection field with
  | true =>
    -- All arguments may be left out, so none of them has to be given.
    have hall : field.arguments.filter (!·.isInitialized) = [] := by
      simpa using (Bool.and_eq_true_iff.mp hs).2
    simp [hall]
  | false =>
    rw [if_neg Bool.false_ne_true, List.mem_append]
    constructor
    · rintro (h | h)
      · obtain ⟨argument, ha, rfl⟩ := List.mem_map.mp h
        obtain ⟨hm, hi⟩ := List.mem_filter.mp ha
        have hi : argument.isInitialized = false := by simpa using hi
        exact ⟨rfl, argument, hm, by rw [hi]⟩
      · obtain ⟨argument, ha, rfl⟩ := List.mem_map.mp h
        obtain ⟨hm, hi⟩ := List.mem_filter.mp ha
        exact ⟨rfl, argument, hm, by rw [hi]⟩
    · rintro ⟨_, argument, hm, rfl⟩
      cases hi : argument.isInitialized with
      | false => exact .inl (List.mem_map_of_mem (List.mem_filter.mpr ⟨hm, by simp [hi]⟩))
      | true => exact .inr (List.mem_map_of_mem (List.mem_filter.mpr ⟨hm, hi⟩))

/-- The types of values in the abstractions of a node are those that it exposes. -/
theorem mem_types_iff {node : Node} {families : Layout.Families} {type : TypeExpr}
    (h : type.target? = none) :
    (∃ abstraction ∈ engine.abstractions node, abstraction.family.isEnabled families = true ∧
        ∃ member ∈ abstraction.members, type ∈ member.types) ↔
      node.kind.hasEntity = true ∧
        ∃ ref, Exposes engine.graph families node ref ∧ engine.valueType ref = type := by
  constructor
  · rintro ⟨abstraction, ha, hw, member, hm, ht⟩
    obtain ⟨hk, hcases⟩ := engine.mem_abstractions_iff.mp ha
    refine ⟨hk, ?_⟩
    rcases hcases with rfl | rfl | ⟨_, rfl | rfl⟩ | ⟨field, hf, hs, rfl | rfl⟩
    · obtain ⟨field, hf, rfl⟩ := List.mem_map.mp hm
      exact ⟨_, .accessor hf hw, (List.mem_singleton.mp ht).symm⟩
    · obtain ⟨field, hf, rfl⟩ := List.mem_map.mp hm
      obtain ⟨hf, hoptional⟩ := List.mem_filter.mp hf
      obtain ⟨parameter, hp, rfl⟩ := List.mem_map.mp ht
      rcases engine.mem_selectorParameters_iff.mp hp with ⟨hs, argument, hm, rfl⟩ | ⟨_, rfl⟩
      · exact ⟨_, .selector hf (by simpa using hoptional) hs hm hw, rfl⟩
      · unfold configurator at h
        split at h <;> cases h
    · obtain ⟨subtype, _, rfl⟩ := List.mem_map.mp hm
      rw [List.mem_singleton.mp ht] at h
      cases h
    · cases hm
    · obtain ⟨argument, hargument, rfl⟩ := List.mem_map.mp hm
      obtain ⟨hargument, hnullable⟩ := List.mem_filter.mp hargument
      exact ⟨_, .setter hf hs hargument hnullable hw, (List.mem_singleton.mp ht).symm⟩
    · cases hm
  · rintro ⟨hk, ref, hexposes, rfl⟩
    cases hexposes with
    | @accessor field hmem hwanted =>
      exact ⟨_, engine.mem_abstractions_iff.mpr ⟨hk, .inl rfl⟩, hwanted, _,
        List.mem_map_of_mem hmem, List.mem_singleton_self _⟩
    | @selector field argument hmem hoptional hunselected harg hwanted =>
      refine ⟨_, engine.mem_abstractions_iff.mpr ⟨hk, .inr (.inl rfl)⟩, hwanted, _,
        List.mem_map_of_mem (List.mem_filter.mpr ⟨hmem, by simpa using hoptional⟩), ?_⟩
      exact List.mem_map.mpr ⟨_, engine.mem_selectorParameters_iff.mpr
        (.inl ⟨hunselected, argument, harg, rfl⟩), rfl⟩
    | @setter field argument hmem hselected harg hnullable hwanted =>
      exact ⟨_, engine.mem_abstractions_iff.mpr
          ⟨hk, .inr (.inr (.inr ⟨field, hmem, hselected, .inl rfl⟩))⟩, hwanted, _,
        List.mem_map_of_mem (List.mem_filter.mpr ⟨harg, hnullable⟩),
        List.mem_singleton_self _⟩

/-- A value is that of an entity if its type names one. -/
theorem valueType_eq_entity_iff {type : TypeRef} :
    (∃ name list nullable, engine.valueType type = .value .entity name list nullable) ↔
      NamesEntity engine.graph type := by
  unfold valueType NamesEntity Graph.kindOf? Graph.referenced?
  cases engine.graph.node? type.node with
  | none => simp
  | some target => cases hk : target.kind <;> simp [hk, Kind.hasEntity]

end Engine

/-! ## Types that are left -/

/-- Pruning takes types out of a member and puts none in. -/
theorem Member.types_without {removed : List String} {member : Member} {type : TypeExpr}
    (h : type ∈ (member.without removed).types) : type ∈ member.types := by
  cases member with
  | property property => exact h
  | method method =>
    obtain ⟨parameter, hp, rfl⟩ := List.mem_map.mp h
    exact List.mem_map_of_mem (List.mem_filter.mp hp).1

/-- Pruning takes no type of a value out of a member. -/
theorem Member.mem_types_without_iff {removed : List String} {member : Member} {type : TypeExpr}
    (h : type.target? = none) : type ∈ (member.without removed).types ↔ type ∈ member.types := by
  refine ⟨Member.types_without, fun ht => ?_⟩
  cases member with
  | property property => exact ht
  | method method =>
    obtain ⟨parameter, hp, rfl⟩ := List.mem_map.mp ht
    have hstays : parameter.stays removed = true := by simp [Parameter.stays, h]
    exact List.mem_map_of_mem (List.mem_filter.mpr ⟨hp, hstays⟩)

end QuerySurface.Plan
