import QuerySurface.Proofs.Plan.Derived
import QuerySurface.Proofs.Schema.Hierarchy

/-!
# Views of nodes

The fields of a node are seen in two views, its entity and its projection. A view shows some of
the fields, and marks a member as inherited if the view of an implemented interface shows the
field that is overridden. Following the overridden fields from view to view, up to a field that
is not inherited, never leaves what the view of the node extends.
-/

namespace QuerySurface.Plan

open Schema (Graph Node Field Kind)

/-- A view of the fields of a node. -/
inductive View where
  /-- All fields, to be read. -/
  | entity
  /-- The fields that are not always fetched, to be selected. -/
  | projection
  deriving DecidableEq, Repr

namespace View

variable (view : View)

/-- The family of a view. -/
def family : View → Family
  | .entity => .entity
  | .projection => .projection

/-- Whether a view shows a field. -/
def shows : View → Field → Bool
  | .entity, _ => true
  | .projection, field => !field.required

/-- The view of a node. -/
def abstraction (engine : Engine) : View → Node → Abstraction
  | .entity => engine.entity
  | .projection => engine.projection

/-- What a view of a node has for a field. -/
def member (engine : Engine) (node : Node) : View → Field → Member
  | .entity, field => .property (engine.accessor field)
  | .projection, field => .method (engine.selector node field)

/-- The overridden field, if the view shows it. -/
def above? (graph : Graph) (field : Field) : Option Field :=
  (graph.overridden? field).filter view.shows

/-! ## The abstraction of a view -/

/-- The family of a view of a node. -/
theorem family_abstraction (engine : Engine) (node : Node) :
    (view.abstraction engine node).family = view.family := by
  cases view <;> rfl

/-- A view of a node has a member for every field that it shows. -/
theorem members_abstraction (engine : Engine) (node : Node) :
    (view.abstraction engine node).members =
      (node.fields.filter view.shows).map (view.member engine node) := by
  cases view with
  | entity =>
    have hall : node.fields.filter (shows .entity) = node.fields :=
      List.filter_eq_self.mpr fun _ _ => rfl
    rw [hall]
    rfl
  | projection => rfl

/-- A view of a node extends those of the interfaces that the node implements. -/
theorem supertypes_abstraction (engine : Engine) (node : Node) :
    (view.abstraction engine node).supertypes =
      (engine.graph.implements node).map fun parent => (view.abstraction engine parent).name := by
  cases view <;> rfl

/-- A member has the name of its field. -/
theorem name_member (engine : Engine) (node : Node) (field : Field) :
    (view.member engine node field).name = field.name := by
  cases view <;> rfl

/-- A member is inherited if the view shows the overridden field. -/
theorem isOverride_member (engine : Engine) (node : Node) (field : Field) :
    (view.member engine node field).isOverride = (view.above? engine.graph field).isSome := by
  have hshown : (view.above? engine.graph field).isSome =
      (engine.graph.overridden? field).any view.shows := by
    rw [above?, Option.isSome_filter]
  rw [hshown]
  cases view with
  | entity =>
    change (engine.graph.overridden? field).isSome = _
    cases engine.graph.overridden? field <;> rfl
  | projection => rfl

/-- A node that has an entity has both views. -/
theorem abstraction_mem (engine : Engine) {node : Node} (h : node.kind.hasEntity = true) :
    view.abstraction engine node ∈ engine.abstractions node := by
  rw [engine.mem_abstractions_iff]
  cases view with
  | entity => exact ⟨h, .inl rfl⟩
  | projection => exact ⟨h, .inr (.inl rfl)⟩

/-- The view of a node is what its plan has of the family. -/
theorem ofFamily?_derived (engine : Engine) {node : Node} (h : node.kind.hasEntity = true) :
    (engine.derived node).ofFamily? view.family = some (view.abstraction engine node) := by
  cases view <;> cases hk : node.kind <;>
    simp_all [Kind.hasEntity, NodePlan.ofFamily?, Engine.derived, Engine.abstractions, family,
      abstraction, Engine.entity, Engine.projection]

/-! ## Following what is overridden -/

/-- Following the overridden fields that a view shows from a field leads past some fields, all of
them inherited, to one that is not. -/
inductive Ends (graph : Graph) : Field → List Field → Field → Prop where
  /-- The field is not inherited. -/
  | here {field : Field} (own : view.above? graph field = none) : Ends graph field [] field
  /-- The field is inherited, and what it overrides is followed. -/
  | above {field next last : Field} {passed : List Field}
      (inherited : view.above? graph field = some next) (more : Ends graph next passed last) :
      Ends graph field (field :: passed) last

/-- A place in a hierarchy: a node of a graph with a field that a view shows. -/
structure At (graph : Graph) (node : Node) (field : Field) : Prop where
  /-- The node belongs to the graph. -/
  node_mem : node ∈ graph.nodes
  /-- The node has an entity. -/
  hasEntity : node.kind.hasEntity = true
  /-- The field belongs to the node. -/
  field_mem : field ∈ node.fields
  /-- The view shows the field. -/
  shown : view.shows field = true

variable {view}

/-- Following what is overridden is determined. -/
theorem Ends.unique {graph : Graph} {field last other : Field} {passed skipped : List Field}
    (h : view.Ends graph field passed last) (ho : view.Ends graph field skipped other) :
    passed = skipped ∧ last = other := by
  induction h generalizing skipped with
  | here hown =>
    cases ho with
    | here => exact ⟨rfl, rfl⟩
    | above hinherited => simp [hown] at hinherited
  | above hinherited _ ih =>
    cases ho with
    | here hown => simp [hown] at hinherited
    | above hinherited' hmore =>
      obtain rfl := Option.some.inj (hinherited.symm.trans hinherited')
      obtain ⟨rfl, rfl⟩ := ih hmore
      exact ⟨rfl, rfl⟩

/-- What a field overrides in a view belongs to an interface that its node implements. -/
theorem At.exists_of_above? {graph : Graph} (hp : graph.Placed) {node : Node}
    {field next : Field} (h : view.At graph node field)
    (ha : view.above? graph field = some next) :
    ∃ parent, graph.Implements node parent ∧ view.At graph parent next ∧
      next.name = field.name := by
  obtain ⟨ho, hs⟩ := Option.filter_eq_some_iff.mp ha
  obtain ⟨parent, hi, hf, hname⟩ := Graph.exists_of_overridden? hp h.node_mem h.field_mem ho
  have himplements : graph.Implements node parent := ⟨h.node_mem, hi⟩
  obtain ⟨hm, hk⟩ := himplements.parent_mem
  refine ⟨parent, himplements, ⟨hm, ?_, hf, hs⟩, hname⟩
  rw [hk]
  rfl

/-- Where following what is overridden ends. All fields on the way are inherited and shown by nodes
of the graph; the last one is not inherited, and its node is reached from the first by going
to implemented interfaces. -/
theorem Ends.exists_owner {graph : Graph} (hp : graph.Placed) {node : Node}
    {field last : Field} {passed : List Field} (h : view.Ends graph field passed last)
    (hat : view.At graph node field) :
    (∀ skipped ∈ passed, (view.above? graph skipped).isSome = true ∧
        ∃ holder, view.At graph holder skipped) ∧
      view.above? graph last = none ∧ last.name = field.name ∧
      ∃ owner, view.At graph owner last ∧ Relation.ReflTransGen graph.Implements node owner := by
  induction h generalizing node with
  | here hown => exact ⟨by simp, hown, rfl, node, hat, .refl⟩
  | @above field next last passed hinherited hmore ih =>
    obtain ⟨parent, hi, hnext, hname⟩ := hat.exists_of_above? hp hinherited
    obtain ⟨hpassed, hown, hlast, owner, howner, hreach⟩ := ih hnext
    refine ⟨?_, hown, hlast.trans hname, owner, howner, .head hi hreach⟩
    rw [List.forall_mem_cons]
    exact ⟨⟨by rw [hinherited]; rfl, node, hat⟩, hpassed⟩

end View

end QuerySurface.Plan
