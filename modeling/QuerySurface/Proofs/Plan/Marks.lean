import QuerySurface.Proofs.Plan.Views

/-!
# Marks of inheritance

A member of an entity or a projection is marked as inherited by way of the overridden field: that
of the first implemented interface that declares one of the name. What the node does inherit goes
by all its interfaces. For entities the two agree. For projections they agree unless the interface
that comes first always fetches its field, so that it has no selector, while another one has a
selector: then the selector is inherited from the other, but not marked, and so declared again.
-/

namespace QuerySurface.Plan

open Schema (Graph Node Field GraphId SchemaStep Strictness)

/-- The plan of a node has a member of a name in the abstraction of a family. -/
def HasMember (engine : Engine) (family : Family) (node : Node) (name : String) : Prop :=
  ∃ plan abstraction member, engine.plan node = .ok plan ∧
    plan.ofFamily? family = some abstraction ∧ member ∈ abstraction.members ∧ member.name = name

/-- An interface that a node implements has a member of a name in the abstraction of a family. -/
def Inherits (engine : Engine) (family : Family) (node : Node) (name : String) : Prop :=
  ∃ parent ∈ engine.graph.implements node, HasMember engine family parent name

/-- The first interface implemented by a node that declares a field of a name, and this field. -/
structure Leads (graph : Graph) (node : Node) (name : String) (parent : Node) (field : Field) :
    Prop where
  /-- The interface declares the field. -/
  declared : parent.field? name = some field
  /-- The node implements the interface, and those before it declare no such field. -/
  first : ∃ front back, graph.implements node = front ++ parent :: back ∧
    ∀ earlier ∈ front, earlier.field? name = none

/-- The first interface that declares a field of a name always fetches it, and another one does
not. -/
def Disagrees (graph : Graph) (node : Node) (name : String) : Prop :=
  ∃ parent field, Leads graph node name parent field ∧ field.required = true ∧
    ∃ other ∈ graph.implements node, ∃ rival ∈ other.fields,
      rival.name = name ∧ rival.required = false

section marks

variable {graph : Graph} {layout : Layout} {node parent : Node} {field next : Field}
  {name : String}

/-- The interface that leads is implemented. -/
theorem Leads.mem (h : Leads graph node name parent field) : parent ∈ graph.implements node := by
  obtain ⟨front, back, hsplit, -⟩ := h.first
  simp [hsplit]

/-- What a field overrides is the field of its name that leads. -/
theorem overridden?_eq_some_iff (hp : graph.Placed) (hn : node ∈ graph.nodes)
    (hf : field ∈ node.fields) :
    graph.overridden? field = some next ↔ ∃ parent, Leads graph node field.name parent next := by
  rw [Graph.overridden?, (hp.owner node hn field hf).1]
  constructor
  · intro h
    obtain ⟨front, parent, back, hsplit, hfound, hfree⟩ := List.findSome?_eq_some_iff.mp h
    exact ⟨parent, hfound, front, back, hsplit, hfree⟩
  · rintro ⟨parent, hfound, front, back, hsplit, hfree⟩
    exact List.findSome?_eq_some_iff.mpr ⟨front, parent, back, hsplit, hfound, hfree⟩

/-- The field of a name of an implemented interface. -/
theorem field?_parent (hp : graph.Placed) (hparent : parent ∈ graph.implements node)
    (hf : field ∈ parent.fields) : parent.field? field.name = some field :=
  Catalog.find?_of_mem (hp.fields parent (Schema.mem_resolve hparent).1) hf

/-- If an implemented interface declares a field of the name, the field overrides one. -/
theorem exists_overridden? (hp : graph.Placed) (hn : node ∈ graph.nodes) (hf : field ∈ node.fields)
    (hparent : parent ∈ graph.implements node) {rival : Field} (hr : rival ∈ parent.fields)
    (hname : rival.name = field.name) : ∃ next, graph.overridden? field = some next := by
  have hfound := field?_parent hp hparent hr
  rw [Graph.overridden?, (hp.owner node hn field hf).1, ← Option.isSome_iff_exists,
    List.findSome?_isSome_iff]
  exact ⟨parent, hparent, by rw [← hname, hfound]; rfl⟩

/-- A node with views has a member of a name in a view if the view shows a field of that name. -/
theorem hasMember_iff {engine : Engine} (view : View) (hk : node.kind.hasEntity = true) :
    HasMember engine view.family node name ↔
      ∃ field ∈ node.fields, view.shows field = true ∧ field.name = name := by
  have hmember : HasMember engine view.family node name ↔
      ∃ member ∈ (view.abstraction engine node).members, member.name = name := by
    constructor
    · rintro ⟨plan, abstraction, member, hplan, hfamily, hm, hname⟩
      rw [engine.plan_eq] at hplan
      obtain rfl := Except.ok.inj hplan
      rw [view.ofFamily?_derived engine hk] at hfamily
      obtain rfl := Option.some.inj hfamily
      exact ⟨member, hm, hname⟩
    · rintro ⟨member, hm, hname⟩
      exact ⟨_, _, member, engine.plan_eq node, view.ofFamily?_derived engine hk, hm, hname⟩
  rw [hmember, view.members_abstraction]
  constructor
  · rintro ⟨member, hm, hname⟩
    obtain ⟨field, hf, rfl⟩ := List.mem_map.mp hm
    obtain ⟨hf, hshown⟩ := List.mem_filter.mp hf
    exact ⟨field, hf, hshown, (view.name_member engine node field).symm.trans hname⟩
  · rintro ⟨field, hf, hshown, hname⟩
    exact ⟨_, List.mem_map_of_mem (List.mem_filter.mpr ⟨hf, hshown⟩),
      (view.name_member engine node field).trans hname⟩

/-- What an implemented interface has in a view. -/
theorem hasMember_parent_iff {engine : Engine} (view : View)
    (h : parent ∈ engine.graph.implements node) :
    HasMember engine view.family parent name ↔
      ∃ field ∈ parent.fields, view.shows field = true ∧ field.name = name := by
  refine hasMember_iff view ?_
  rw [(Schema.mem_resolve h).2]
  rfl

/-- The interface that leads has the member in a view if the view shows the field that leads. -/
theorem Leads.hasMember_iff {engine : Engine} (hp : engine.graph.Placed)
    (h : Leads engine.graph node name parent next) (view : View) :
    HasMember engine view.family parent name ↔ view.shows next = true := by
  rw [hasMember_parent_iff view h.mem]
  constructor
  · rintro ⟨field, hf, hshown, rfl⟩
    have hfound := field?_parent hp h.mem hf
    rwa [← Option.some.inj (hfound.symm.trans h.declared)]
  · intro hshown
    exact ⟨next, Catalog.mem_of_find? h.declared, hshown, Catalog.name_of_find? h.declared⟩

/-- A member of a view in the plan of a node is that of a field. -/
theorem exists_field_of_plan {engine : Engine} {view : View} {plan : NodePlan}
    (hplan : engine.plan node = .ok plan) {abstraction : Abstraction}
    (ha : plan.ofFamily? view.family = some abstraction) {member : Member}
    (hm : member ∈ abstraction.members) :
    ∃ field ∈ node.fields, view.member engine node field = member := by
  rw [engine.plan_eq] at hplan
  obtain rfl := Except.ok.inj hplan
  have hk : node.kind.hasEntity = true :=
    (engine.mem_abstractions_iff.mp (List.mem_of_find?_eq_some ha)).1
  rw [view.ofFamily?_derived engine hk] at ha
  obtain rfl := Option.some.inj ha
  rw [view.members_abstraction] at hm
  obtain ⟨field, hf, rfl⟩ := List.mem_map.mp hm
  exact ⟨field, (List.mem_filter.mp hf).1, rfl⟩

/-- A member of a view is marked if the field of its name that leads is shown by the view. -/
theorem isOverride_member_iff (layout : Layout) (hp : graph.Placed) (hn : node ∈ graph.nodes)
    (hf : field ∈ node.fields) (view : View) :
    (view.member ⟨graph, layout⟩ node field).isOverride = true ↔
      ∃ parent next, Leads graph node field.name parent next ∧ view.shows next = true := by
  rw [view.isOverride_member, Option.isSome_iff_exists]
  simp only [View.above?, Option.filter_eq_some_iff, overridden?_eq_some_iff hp hn hf]
  constructor
  · rintro ⟨next, ⟨parent, hleads⟩, hshown⟩
    exact ⟨parent, next, hleads, hshown⟩
  · rintro ⟨parent, next, hleads, hshown⟩
    exact ⟨next, ⟨parent, hleads⟩, hshown⟩

/-- A member is marked exactly if it is inherited, unless its view is the projection and the
interfaces of its node disagree. -/
theorem isOverride_iff_inherits_iff (hp : graph.Placed) (hn : node ∈ graph.nodes)
    (hf : field ∈ node.fields) (view : View) :
    ((view.member ⟨graph, layout⟩ node field).isOverride = true ↔
        Inherits ⟨graph, layout⟩ view.family node field.name) ↔
      (view = .projection → ¬Disagrees graph node field.name) := by
  have hmarked := isOverride_member_iff layout hp hn hf view
  constructor
  · rintro hagree rfl ⟨parent, first, hleads, hrequired, other, hother, rival, hr, hname, hoptional⟩
    have hshown : View.shows .projection rival = true := by simp [View.shows, hoptional]
    have hinherits : Inherits ⟨graph, layout⟩ (View.family .projection) node field.name :=
      ⟨other, hother, (hasMember_parent_iff .projection hother).mpr ⟨rival, hr, hshown, hname⟩⟩
    obtain ⟨parent', next, hleads', hs⟩ := hmarked.mp (hagree.mpr hinherits)
    have hfirst := (overridden?_eq_some_iff hp hn hf).mpr ⟨parent, hleads⟩
    have hnext := (overridden?_eq_some_iff hp hn hf).mpr ⟨parent', hleads'⟩
    obtain rfl := Option.some.inj (hfirst.symm.trans hnext)
    simp [View.shows, hrequired] at hs
  · intro hagree
    rw [hmarked]
    constructor
    · rintro ⟨parent, next, hleads, hshown⟩
      exact ⟨parent, hleads.mem, (hleads.hasMember_iff hp view).mpr hshown⟩
    · rintro ⟨other, hother, hmember⟩
      obtain ⟨rival, hr, hshown, hname⟩ := (hasMember_parent_iff view hother).mp hmember
      obtain ⟨next, hover⟩ := exists_overridden? hp hn hf hother hr hname
      obtain ⟨parent, hleads⟩ := (overridden?_eq_some_iff hp hn hf).mp hover
      refine ⟨parent, next, hleads, ?_⟩
      cases view with
      | entity => rfl
      | projection =>
        by_contra hhidden
        have hrequired : next.required = true := by simpa [View.shows] using hhidden
        have hoptional : rival.required = false := by simpa [View.shows] using hshown
        exact hagree rfl
          ⟨parent, next, hleads, hrequired, other, hother, rival, hr, hname, hoptional⟩

/-- Which members are marked as inherited. In the plan of a node of a graph that was built, a member
of the entity or the projection is marked exactly if the first implemented interface that
declares a field of its name has such a member too, so what is marked is inherited. All that is
inherited is marked in entities, and in projections unless the interface that comes first always
fetches the field and another one does not. -/
theorem marked_iff_of_build {id : GraphId} {strictness : Strictness} {steps : List SchemaStep}
    (hb : Graph.build id strictness steps = .ok graph) (hn : node ∈ graph.nodes) {view : View}
    {plan : NodePlan} (hplan : (Engine.mk graph layout).plan node = .ok plan)
    {abstraction : Abstraction} (ha : plan.ofFamily? view.family = some abstraction)
    {member : Member} (hm : member ∈ abstraction.members) :
    (member.isOverride = true ↔ ∃ parent field, Leads graph node member.name parent field ∧
        HasMember ⟨graph, layout⟩ view.family parent member.name) ∧
      (member.isOverride = true → Inherits ⟨graph, layout⟩ view.family node member.name) ∧
      ((member.isOverride = true ↔ Inherits ⟨graph, layout⟩ view.family node member.name) ↔
        (view = .projection → ¬Disagrees graph node member.name)) := by
  have hp := Graph.placed_of_build hb
  obtain ⟨field, hf, rfl⟩ := exists_field_of_plan hplan ha hm
  rw [view.name_member]
  have hmarked : (view.member ⟨graph, layout⟩ node field).isOverride = true ↔
      ∃ parent next, Leads graph node field.name parent next ∧
        HasMember ⟨graph, layout⟩ view.family parent field.name := by
    rw [isOverride_member_iff layout hp hn hf view]
    refine exists_congr fun parent => exists_congr fun next => and_congr_right fun hleads => ?_
    exact (hleads.hasMember_iff hp view).symm
  refine ⟨hmarked, ?_, isOverride_iff_inherits_iff hp hn hf view⟩
  intro h
  obtain ⟨parent, next, hleads, hmember⟩ := hmarked.mp h
  exact ⟨parent, hleads.mem, hmember⟩

end marks

/-- A schema in which an object implements two interfaces with a field of one name, of which the
first always fetches it and the second does not. -/
def keyedSteps : List SchemaStep :=
  [ .node "ID" .scalar [],
    .node "Keyed" .interface [.field "id" ⟨"ID", false, true⟩ true false []],
    .node "Labeled" .interface [.field "id" ⟨"ID", false, true⟩ false false []],
    .node "Dog" .object
      [ .implements "Keyed", .implements "Labeled",
        .field "id" ⟨"ID", false, true⟩ false false [] ] ]

/-- In a graph that was built from this schema, the selector of the id of a dog is not marked, and
the projection of an implemented interface has it. -/
structure Unmarked (graph : Graph) (dog : Node) (plan : NodePlan) (abstraction : Abstraction)
    (member : Member) : Prop where
  /-- The schema can be built. -/
  built : Graph.build ⟨0⟩ .strict keyedSteps = .ok graph
  /-- The dog is declared. -/
  dog_mem : dog ∈ graph.nodes
  /-- Its plan. -/
  plan_eq : (Engine.mk graph .usual).plan dog = .ok plan
  /-- Its projection. -/
  projection_eq : plan.ofFamily? View.projection.family = some abstraction
  /-- The selector belongs to the projection. -/
  member_mem : member ∈ abstraction.members
  /-- The selector is not marked. -/
  unmarked : member.isOverride = false
  /-- The selector is inherited. -/
  inherited : Inherits ⟨graph, .usual⟩ View.projection.family dog member.name

/-- There is such a selector. -/
theorem exists_unmarked : ∃ graph dog plan abstraction member,
    Unmarked graph dog plan abstraction member := by
  refine ⟨_, _, _, _, _, rfl, .tail _ (.tail _ (.tail _ (.head _))), rfl, rfl, .head _, rfl, ?_⟩
  -- The second of the two interfaces has the selector.
  exact ⟨_, .tail _ (.head _), _, _, _, rfl, rfl, .head _, rfl⟩

/-- The law of marks holds where the interfaces disagree. -/
theorem marked_iff_keyed :
    ∃ graph dog plan abstraction member, Unmarked graph dog plan abstraction member ∧
      (member.isOverride = true ↔ ∃ parent field, Leads graph dog member.name parent field ∧
        HasMember ⟨graph, .usual⟩ View.projection.family parent member.name) ∧
      (member.isOverride = true →
        Inherits ⟨graph, .usual⟩ View.projection.family dog member.name) ∧
      ((member.isOverride = true ↔
          Inherits ⟨graph, .usual⟩ View.projection.family dog member.name) ↔
        (View.projection = .projection → ¬Disagrees graph dog member.name)) := by
  obtain ⟨graph, dog, plan, abstraction, member, h⟩ := exists_unmarked
  exact ⟨graph, dog, plan, abstraction, member, h,
    marked_iff_of_build h.built h.dog_mem h.plan_eq h.projection_eq h.member_mem⟩

/-- What is inherited is not always marked: the selector of the id of a dog is declared again in its
projection, though it is inherited from the second of two interfaces, because the first always
fetches the id. -/
theorem not_marked_of_inherits :
    ¬∀ (id : GraphId) (strictness : Strictness) (steps : List SchemaStep) (graph : Graph)
      (layout : Layout) (view : View) (node : Node) (plan : NodePlan) (abstraction : Abstraction)
      (member : Member), Graph.build id strictness steps = .ok graph → node ∈ graph.nodes →
        (Engine.mk graph layout).plan node = .ok plan →
        plan.ofFamily? view.family = some abstraction → member ∈ abstraction.members →
          (member.isOverride = true ↔
            Inherits ⟨graph, layout⟩ view.family node member.name) := by
  intro hall
  obtain ⟨graph, dog, plan, abstraction, member, h⟩ := exists_unmarked
  have hmarked := (hall _ _ _ graph .usual .projection dog plan abstraction member h.built h.dog_mem
    h.plan_eq h.projection_eq h.member_mem).mpr h.inherited
  rw [h.unmarked] at hmarked
  cases hmarked

end QuerySurface.Plan
