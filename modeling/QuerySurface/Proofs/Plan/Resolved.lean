import QuerySurface.Proofs.Plan.References

/-!
# Values of entities

If entities are wanted, every value of an entity names one that the plans hold. If they are not,
there is none, but pruning leaves the types of values as they are: the values of entities that
are left are those of arguments, and a schema may give an argument the type of any node. So it
is said exactly when the plans that a layout wants name an entity that they do not hold.
-/

namespace QuerySurface.Plan

open Schema (Graph GraphId SchemaStep Strictness)

/-! ## Types that are there -/

/-- A property or a parameter of the plans has a type. -/
def HasType (plans : List NodePlan) (type : TypeExpr) : Prop :=
  ∃ plan ∈ plans, ∃ abstraction ∈ plan.abstractions, ∃ member ∈ abstraction.members,
    type ∈ member.types

/-- The plans hold the entity of a name. -/
def HasEntity (plans : List NodePlan) (name : String) : Prop :=
  ∃ plan ∈ plans, ∃ abstraction ∈ plan.abstractions,
    abstraction.family = .entity ∧ abstraction.name = name

/-- Every value of an entity in the plans names an entity that they hold. -/
def Resolved (plans : List NodePlan) : Prop :=
  ∀ name list nullable, HasType plans (.value .entity name list nullable) → HasEntity plans name

/-! ## Types in the wanted plans -/

section Wanted

variable {graph : Graph} {layout : Layout}

/-- The types of values in the wanted plans are those that the nodes of the graph expose. -/
theorem hasType_wantedPlans_iff {type : TypeExpr} (h : type.target? = none) :
    HasType (wantedPlans graph layout) type ↔
      ∃ node ∈ graph.nodes, node.kind.hasEntity = true ∧
        ∃ ref, Exposes graph layout.families node ref ∧
          (Engine.mk graph layout).valueType ref = type := by
  rw [HasType, wantedPlans_eq_map]
  constructor
  · rintro ⟨plan, hp, abstraction, ha, member, hm, ht⟩
    obtain ⟨node, hn, rfl⟩ := List.mem_map.mp hp
    obtain ⟨whole, hw, rfl⟩ := List.mem_map.mp ha
    obtain ⟨original, ho, rfl⟩ := List.mem_map.mp hm
    obtain ⟨hw, hf⟩ := List.mem_filter.mp hw
    exact ⟨node, hn, ((Engine.mk graph layout).mem_types_iff h).mp
      ⟨whole, hw, hf, original, ho, (Member.mem_types_without_iff h).mp ht⟩⟩
  · rintro ⟨node, hn, hexposed⟩
    obtain ⟨whole, hw, hf, original, ho, ht⟩ :=
      ((Engine.mk graph layout).mem_types_iff h).mpr hexposed
    exact ⟨_, List.mem_map_of_mem hn, _, List.mem_map_of_mem (List.mem_filter.mpr ⟨hw, hf⟩), _,
      List.mem_map_of_mem ho, (Member.mem_types_without_iff h).mpr ht⟩

/-- If entities are wanted, every value of an entity is resolved. -/
theorem resolved_wantedPlans (h : Family.entity.isEnabled layout.families = true) :
    Resolved (wantedPlans graph layout) := by
  intro name list nullable ht
  obtain ⟨node, _, _, ref, _, hr⟩ := (hasType_wantedPlans_iff rfl).mp ht
  obtain ⟨label, hl, hf, rfl⟩ := (Engine.mk graph layout).entity_of_valueType hr
  obtain ⟨plan, hp, abstraction, ha, hlabel, hname⟩ :=
    Label.resolvesIn_wantedPlans hl (hf ▸ h)
  exact ⟨plan, hp, abstraction, ha, (congrArg Label.family hlabel).trans hf, hname⟩

/-- If entities are not wanted, there are none. -/
theorem not_hasEntity_wantedPlans (h : Family.entity.isEnabled layout.families = false)
    (name : String) : ¬HasEntity (wantedPlans graph layout) name := by
  rintro ⟨plan, hp, abstraction, ha, hf, _⟩
  obtain ⟨derived, _, rfl⟩ := List.mem_map.mp hp
  obtain ⟨whole, hw, rfl⟩ := List.mem_map.mp ha
  have hwanted := (List.mem_filter.mp hw).2
  have hf : whole.family = .entity := hf
  rw [hf, h] at hwanted
  cases hwanted

/-- The values of entities in the plans that a layout wants are all resolved exactly if entities are
wanted, or no type that is left names an entity. The types that are left without entities are those
of arguments: of fields that are not always fetched and have no selection, in the projection of
their node, and of fields with a selection, in the selection. -/
theorem resolved_generate_iff (h : layout.check = .ok ()) :
    ∃ plans, generate graph layout = .ok plans ∧
      (Resolved plans ↔
        Family.entity.isEnabled layout.families = true ∨
          ∀ node ∈ graph.nodes, node.kind.hasEntity = true →
            ∀ ref, Exposes graph layout.families node ref → ¬NamesEntity graph ref) := by
  refine ⟨wantedPlans graph layout, generate_eq h, ?_⟩
  constructor
  · intro hresolved
    cases hw : Family.entity.isEnabled layout.families with
    | true => exact .inl rfl
    | false =>
      right
      intro node hn hk ref hexposed hnames
      obtain ⟨name, list, nullable, hr⟩ :=
        (Engine.mk graph layout).valueType_eq_entity_iff.mpr hnames
      have ht : HasType (wantedPlans graph layout) (.value .entity name list nullable) :=
        (hasType_wantedPlans_iff rfl).mpr ⟨node, hn, hk, ref, hexposed, hr⟩
      exact not_hasEntity_wantedPlans hw name (hresolved name list nullable ht)
  · rintro (hw | hnone)
    · exact resolved_wantedPlans hw
    · intro name list nullable ht
      obtain ⟨node, hn, hk, ref, hexposed, hr⟩ := (hasType_wantedPlans_iff rfl).mp ht
      have hnames := (Engine.mk graph layout).valueType_eq_entity_iff.mp ⟨name, list, nullable, hr⟩
      exact absurd hnames (hnone node hn hk ref hexposed)

end Wanted

/-- A schema in which a field takes an argument of the type of an object. -/
def friendSteps : List SchemaStep :=
  [ .node "String" .scalar [],
    .node "Person" .object
      [ .field "name" ⟨"String", false, true⟩ false false
          [.argument "friend" ⟨"Person", false, true⟩ false []] ] ]

/-- The usual layout without entities. -/
def withoutEntities : Layout :=
  { Layout.usual with families := { Layout.Families.all with entity := false } }

/-- The law of values holds of the schema with a friend, without entities. -/
theorem resolved_generate_friend :
    ∃ graph, Graph.build ⟨0⟩ .strict friendSteps = .ok graph ∧
      withoutEntities.check = .ok () ∧
      ∃ plans, generate graph withoutEntities = .ok plans ∧
        (Resolved plans ↔
          Family.entity.isEnabled withoutEntities.families = true ∨
            ∀ node ∈ graph.nodes, node.kind.hasEntity = true →
              ∀ ref, Exposes graph withoutEntities.families node ref → ¬NamesEntity graph ref) := by
  obtain ⟨graph, hb⟩ : ∃ graph, Graph.build ⟨0⟩ .strict friendSteps = .ok graph := ⟨_, rfl⟩
  have hc : withoutEntities.check = .ok () := rfl
  exact ⟨graph, hb, hc, resolved_generate_iff hc⟩

/-- Values of entities are not always resolved: without entities, the selector of `name` keeps a
parameter whose type is the entity of `Person`, which is gone. -/
theorem not_resolved_generate :
    ¬∀ (id : GraphId) (strictness : Strictness) (steps : List SchemaStep) (graph : Graph)
      (layout : Layout) (plans : List NodePlan),
      Graph.build id strictness steps = .ok graph → layout.check = .ok () →
        generate graph layout = .ok plans → Resolved plans := by
  intro h
  obtain ⟨graph, plans, hb, hg, ht⟩ : ∃ graph plans,
      Graph.build ⟨0⟩ .strict friendSteps = .ok graph ∧
        generate graph withoutEntities = .ok plans ∧
        HasType plans (.value .entity "Person" false true) := by
    refine ⟨_, _, rfl, rfl, ?_⟩
    exact ⟨_, .tail _ (.head _), _, .head _, _, .head _, .head _⟩
  have hresolved := h _ _ _ graph withoutEntities plans hb rfl hg
  have heq : plans = wantedPlans graph withoutEntities :=
    Except.ok.inj (hg.symm.trans (generate_eq rfl))
  exact not_hasEntity_wantedPlans rfl "Person" (heq ▸ hresolved "Person" false true ht)

end QuerySurface.Plan
