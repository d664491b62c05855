import QuerySurface.Proofs.Plan.Views
import QuerySurface.Proofs.Traits.Source

/-!
# Members that are inherited

A trait leaves out the members that its abstraction inherits, and relies on a trait that it
extends to declare them. If interfaces do not implement each other in a circle, that trait is
there: following the overridden fields from any field of a node leads to a field whose member
is rendered, in the trait of its own node, which is the trait of the first node or one that it
extends by way of others. What is left out has the same name there; that it takes the same
arguments is not said.
-/

namespace QuerySurface.Traits

open Plan (NodePlan Abstraction Member Engine View generate)
open Schema (Graph Node Field SchemaStep Strictness)
open Layout (Scalars)

/-! ## Traits of views -/

/-- The source of a node holds the trait of a view of it, with the signatures of some members as its
body. -/
def Renders (scalars : Scalars) (plans : List NodePlan) (view : View) (node : String)
    (trait : Abstraction) (members : List Member) : Prop :=
  ∃ plan ∈ plans, plan.node = node ∧ plan.ofFamily? view.family = some trait ∧
    HoldsTrait (traitHead trait) (planLines scalars plan)
      (separated ((members.map (signature scalars)).map Signature.lines))

/-- An abstraction extends another of its family that is there. -/
def Extends (plans : List NodePlan) (lower upper : Abstraction) : Prop :=
  ∃ plan ∈ plans, upper ∈ plan.abstractions ∧ upper.family = lower.family ∧
    upper.name ∈ lower.supertypes

section Derived

variable {view : View} {engine : Engine}

/-- The members that the trait of a view declares itself: those of the shown fields that do not
override a field that is shown. -/
theorem mem_ownMembers_abstraction_iff {node : Node} {member : Member} :
    member ∈ ownMembers (view.abstraction engine node) ↔
      ∃ field ∈ node.fields, view.shows field = true ∧ view.above? engine.graph field = none ∧
        view.member engine node field = member := by
  rw [ownMembers, View.members_abstraction, List.mem_filter, List.mem_map]
  constructor
  · rintro ⟨⟨field, hf, rfl⟩, ho⟩
    obtain ⟨hm, hs⟩ := List.mem_filter.mp hf
    rw [View.isOverride_member] at ho
    exact ⟨field, hm, hs, by simpa using ho, rfl⟩
  · rintro ⟨field, hm, hs, ha, rfl⟩
    refine ⟨⟨field, List.mem_filter.mpr ⟨hm, hs⟩, rfl⟩, ?_⟩
    rw [View.isOverride_member, ha]
    rfl

/-- A field that overrides a shown field has no member in the trait of its node. -/
theorem name_ne_of_above? {node : Node} (hn : (Catalog.names node.fields).Nodup) {field : Field}
    (hf : field ∈ node.fields) (ha : (view.above? engine.graph field).isSome = true)
    {member : Member} (hm : member ∈ ownMembers (view.abstraction engine node)) :
    member.name ≠ field.name := by
  obtain ⟨other, ho, -, hnone, rfl⟩ := mem_ownMembers_abstraction_iff.mp hm
  rw [View.name_member]
  intro he
  obtain rfl := List.inj_on_of_nodup_map hn ho hf he
  rw [hnone] at ha
  cases ha

/-- The derived plans of a graph render both views of a node that has an entity. -/
theorem renders_derived (scalars : Scalars) {node : Node} (hn : node ∈ engine.graph.nodes)
    (hk : node.kind.hasEntity = true) :
    Renders scalars (engine.graph.nodes.map engine.derived) view node.name
      (view.abstraction engine node) (ownMembers (view.abstraction engine node)) :=
  ⟨engine.derived node, List.mem_map_of_mem hn, rfl, view.ofFamily?_derived engine hk,
    holdsTrait_signatures scalars (view.abstraction_mem engine hk)⟩

/-- A member of a view is named by the identifier of its field. -/
theorem name_signature_member (engine : Engine) (scalars : Scalars) (view : View) (node : Node)
    (field : Field) :
    (signature scalars (view.member engine node field)).name = identifier field.name := by
  cases view <;> rfl

/-- The view of a node extends those of the interfaces that the node implements. -/
theorem extends_of_implements {node parent : Node} (h : engine.graph.Implements node parent) :
    Extends (engine.graph.nodes.map engine.derived) (view.abstraction engine node)
      (view.abstraction engine parent) := by
  obtain ⟨hm, hk⟩ := h.parent_mem
  have hentity : parent.kind.hasEntity = true := by
    rw [hk]
    rfl
  refine ⟨engine.derived parent, List.mem_map_of_mem hm, view.abstraction_mem engine hentity,
    ?_, ?_⟩
  · rw [View.family_abstraction, View.family_abstraction]
  · rw [View.supertypes_abstraction]
    exact List.mem_map_of_mem h.2

end Derived

/-! ## What a node offers -/

/-- In some plans a view of a node offers a field: following the overridden fields leads past some
fields to a last one, and this one's member is there. -/
structure Offers (engine : Engine) (plans : List NodePlan) (view : View) (node : Node)
    (field : Field) (passed : List Field) (last : Field) : Prop where
  /-- The fields are those on the way up. -/
  ends : view.Ends engine.graph field passed last
  /-- The last field has the name of the first. -/
  name_eq : last.name = field.name
  /-- The fields that are passed are left out of the traits of their nodes. -/
  skipped : ∀ other ∈ passed, ∃ trait members,
    Renders engine.layout.scalars plans view other.owner trait members ∧
      ∀ member ∈ members, member.name ≠ other.name
  /-- The member of the last field is declared in the trait of its node, as a method under the name
  of the field, and this trait is that of the first node or one that it extends, by way of
  others. -/
  declared : ∃ start inStart owner trait members,
    Renders engine.layout.scalars plans view node.name start inStart ∧
      Relation.ReflTransGen (Extends plans) start trait ∧
      owner ∈ engine.graph.nodes ∧ owner.name = last.owner ∧
      Renders engine.layout.scalars plans view last.owner trait members ∧
      view.member engine owner last ∈ members ∧
      DeclaresMethod
        (separated ((members.map (signature engine.layout.scalars)).map Signature.lines))
        (identifier last.name)

/-- Where following the overridden fields ends, the field is offered. -/
theorem offers_of_ends {engine : Engine} (hp : engine.graph.Placed) {view : View} {node : Node}
    {field last : Field} {passed : List Field} (h : view.Ends engine.graph field passed last)
    (hat : view.At engine.graph node field) :
    Offers engine (engine.graph.nodes.map engine.derived) view node field passed last := by
  obtain ⟨hpassed, hown, hlast, owner, howner, hreach⟩ := h.exists_owner hp hat
  refine ⟨h, hlast, ?_, ?_⟩
  · intro other ho
    obtain ⟨ha, holder, hholder⟩ := hpassed other ho
    obtain ⟨-, hname⟩ := hp.owner holder hholder.node_mem other hholder.field_mem
    rw [hname]
    refine ⟨_, _, renders_derived _ hholder.node_mem hholder.hasEntity, ?_⟩
    intro member hm
    exact name_ne_of_above? (hp.fields holder hholder.node_mem) hholder.field_mem ha hm
  · obtain ⟨-, hname⟩ := hp.owner owner howner.node_mem last howner.field_mem
    rw [hname]
    refine ⟨_, _, owner, _, _, renders_derived _ hat.node_mem hat.hasEntity,
      hreach.lift (view.abstraction engine) fun _ _ => extends_of_implements, howner.node_mem, rfl,
      renders_derived _ howner.node_mem howner.hasEntity, ?_⟩
    have hmember : view.member engine owner last ∈ ownMembers (view.abstraction engine owner) :=
      mem_ownMembers_abstraction_iff.mpr ⟨last, howner.field_mem, howner.shown, hown, rfl⟩
    refine ⟨hmember, ?_⟩
    rw [← name_signature_member engine engine.layout.scalars view owner last]
    exact declaresMethod_separated (List.mem_map_of_mem hmember)

end QuerySurface.Traits
