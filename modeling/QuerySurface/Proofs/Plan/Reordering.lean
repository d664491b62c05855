import QuerySurface.Proofs.Plan.Relocation
import QuerySurface.Proofs.Schema.Reordering

/-!
# Plans of reordered declarations

If every name is declared once, the order of the declarations decides on the order of the plans,
and inside a plan on one thing only: the qualification of an interface has a member for each
object that implements it, in the order in which the objects are declared.
-/

namespace QuerySurface.Plan

open Schema (Graph GraphId Kind Node Relocation Reordered SchemaStep Strictness)
open Catalog (names)

/-! ## Plans that agree -/

/-- Abstractions of a node of some kind agree under two orders of names: they are the same, or they
are the qualification of an interface, and its members are those that narrow to the objects of
the names, in the one order and in the other. -/
inductive Abstraction.Agrees (kind : Kind) (narrowing? : String → Option Member)
    (order other : List String) : Abstraction → Abstraction → Prop where
  /-- They are the same. -/
  | same (abstraction : Abstraction) : Agrees kind narrowing? order other abstraction abstraction
  /-- Only the members come in another order. -/
  | narrowings {abstraction : Abstraction} (interface : kind = .interface)
      (family : abstraction.family = .qualification)
      (members : abstraction.members = order.filterMap narrowing?) :
      Agrees kind narrowing? order other abstraction
        { abstraction with members := other.filterMap narrowing? }

/-- Plans agree under two orders of names: they are for one node, and their abstractions agree one
by one. -/
structure NodePlan.Agrees (narrowing? : String → Option Member) (order other : List String)
    (plan twin : NodePlan) : Prop where
  /-- They are for one node. -/
  node : twin.node = plan.node
  /-- It has one kind. -/
  kind : twin.kind = plan.kind
  /-- The abstractions agree. -/
  abstractions : List.Forall₂ (Abstraction.Agrees plan.kind narrowing? order other)
    plan.abstractions twin.abstractions

/-- The member that narrows to the object of a name, in the qualification of a node that is found
under its name, as a layout wants it. -/
def wantedNarrowing? (graph : Graph) (layout : Layout) (node name : String) : Option Member :=
  (graph.node? node).bind fun found =>
    ((Engine.mk graph layout).narrowing? found name).map
      (Member.without (unwantedNames graph layout))

section Agreement

variable {kind : Kind} {narrowing? : String → Option Member} {order other : List String}

/-- Abstractions that agree are of one family. -/
theorem Abstraction.Agrees.family_eq {abstraction twin : Abstraction}
    (h : abstraction.Agrees kind narrowing? order other twin) :
    twin.family = abstraction.family := by
  cases h <;> rfl

/-- Abstractions agree without what goes, too. -/
theorem Abstraction.Agrees.without {abstraction twin : Abstraction}
    (h : abstraction.Agrees kind narrowing? order other twin) (removed : List String) :
    (abstraction.without removed).Agrees kind
      (fun name => (narrowing? name).map (Member.without removed)) order other
      (twin.without removed) := by
  cases h with
  | same => exact .same _
  | narrowings hinterface hfamily hmembers =>
    have hmap : ∀ words : List String, (words.filterMap narrowing?).map (Member.without removed) =
        words.filterMap fun name => (narrowing? name).map (Member.without removed) :=
      fun words => List.map_filterMap
    have hremain := congrArg (List.map (Member.without removed)) hmembers
    rw [hmap] at hremain
    have hagrees : (abstraction.without removed).Agrees kind _ order other _ :=
      .narrowings hinterface hfamily hremain
    rw [← hmap] at hagrees
    exact hagrees

/-- Plans agree without the families that are not wanted, too. -/
theorem NodePlan.Agrees.pruned {plan twin : NodePlan}
    (h : plan.Agrees narrowing? order other twin) (families : Layout.Families)
    (removed : List String) :
    (plan.pruned families removed).Agrees
      (fun name => (narrowing? name).map (Member.without removed)) order other
      (twin.pruned families removed) where
  node := h.node
  kind := h.kind
  abstractions := by
    have hlists := h.abstractions
    unfold NodePlan.pruned
    dsimp only
    generalize plan.abstractions = left at hlists ⊢
    generalize twin.abstractions = right at hlists ⊢
    induction hlists with
    | nil => exact List.Forall₂.nil
    | cons ha _ ih =>
      rw [List.filter_cons, List.filter_cons, ha.family_eq]
      split
      · exact List.Forall₂.cons (ha.without removed) ih
      · exact ih

end Agreement

/-! ## Pruning by names -/

/-- Pruning asks of a name only whether it goes. -/
theorem NodePlan.pruned_congr {removed gone : List String}
    (h : ∀ name, name ∈ removed ↔ name ∈ gone) (families : Layout.Families) (plan : NodePlan) :
    plan.pruned families removed = plan.pruned families gone := by
  have hcontains : removed.contains = gone.contains := by
    funext name
    rw [Bool.eq_iff_iff, List.contains_iff_mem, List.contains_iff_mem, h]
  have hstays : Parameter.stays removed = Parameter.stays gone := by
    funext parameter
    rw [Parameter.stays, hcontains, Parameter.stays]
  have hmember : Member.without removed = Member.without gone := by
    funext member
    cases member with
    | property it => rfl
    | method it => rw [Member.without, hstays, Member.without]
  have habstraction : Abstraction.without removed = Abstraction.without gone := by
    funext abstraction
    rw [Abstraction.without, hcontains, hmember, Abstraction.without]
  rw [NodePlan.pruned, habstraction, NodePlan.pruned]

/-! ## Plans of relocated graphs -/

section Relocated

variable {move : Relocation} {graph other : Graph} (h : graph.Relocates move other)
  (layout : Layout) {node : Node} (hn : node ∈ graph.nodes)
include h hn

/-- The derived plan of a moved node agrees with that of the node. -/
theorem derived_agrees : ((Engine.mk graph layout).derived node).Agrees
    ((Engine.mk graph layout).narrowing? node) (names graph.nodes) (names other.nodes)
    ((Engine.mk other layout).derived (move.node node)) where
  node := rfl
  kind := rfl
  abstractions := by
    have hsame : ∀ (kind : Kind) (abstractions : List Abstraction),
        List.Forall₂ (Abstraction.Agrees kind ((Engine.mk graph layout).narrowing? node)
            (names graph.nodes) (names other.nodes))
          abstractions abstractions := fun _ _ => List.forall₂_same.mpr fun _ _ => .same _
    have hmoved : (move.node node).kind = node.kind := rfl
    have hentity := Engine.entity_moved h layout hn
    have hprojection := Engine.projection_moved h layout hn
    have hselections := Engine.selections_moved h layout hn
    dsimp only [Engine.derived]
    unfold Engine.abstractions
    rw [hmoved, hentity, hprojection, hselections]
    -- Only the qualification of an interface is left: a union has its members in declared order.
    cases hk : node.kind with
    | scalar | enum | input => exact List.Forall₂.nil
    | query | mutation | object => exact hsame _ _
    | union =>
      rw [Engine.qualificationOf_moved h layout hn hk]
      exact hsame _ _
    | interface =>
      have hqualification : ((Engine.mk graph layout).qualificationOf node).Agrees .interface
          ((Engine.mk graph layout).narrowing? node) (names graph.nodes) (names other.nodes)
          ((Engine.mk other layout).qualificationOf (move.node node)) := by
        have hmembers := (Engine.mk graph layout).members_qualificationOf h.source.nodes hk
        have htwin := (Engine.mk other layout).members_qualificationOf h.target.nodes
          (hmoved.trans hk)
        have hnarrowing : (Engine.mk other layout).narrowing? (move.node node) =
            (Engine.mk graph layout).narrowing? node :=
          funext fun _ => Engine.narrowing?_moved h layout hn List.not_mem_nil
        rw [hnarrowing] at htwin
        have hagrees : ((Engine.mk graph layout).qualificationOf node).Agrees .interface
            ((Engine.mk graph layout).narrowing? node) (names graph.nodes) (names other.nodes) _ :=
          .narrowings rfl rfl hmembers
        rw [← htwin] at hagrees
        exact hagrees
      exact .cons (.same _) (.cons (.same _) (.cons hqualification (.cons (.same _) (hsame _ _))))

/-- The wanted plan of a moved node agrees with that of the node. -/
theorem wantedPlan_agrees : (wantedPlan graph layout node).Agrees
    (wantedNarrowing? graph layout node.name) (names graph.nodes) (names other.nodes)
    (wantedPlan other layout (move.node node)) := by
  have hfound : graph.node? node.name = some node := Catalog.find?_of_mem h.source.nodes hn
  have hnarrowing : wantedNarrowing? graph layout node.name = fun name =>
      ((Engine.mk graph layout).narrowing? node name).map
        (Member.without (unwantedNames graph layout)) := by
    funext name
    rw [wantedNarrowing?, hfound, Option.bind_some]
  rw [wantedPlan, wantedPlan, hnarrowing,
    NodePlan.pruned_congr (mem_unwantedNames_moved h layout) layout.families]
  exact (derived_agrees h layout hn).pruned _ _

end Relocated

/-! ## Plans of reordered declarations -/

/-- The node of a wanted plan. -/
theorem map_node_wantedPlans (graph : Graph) (layout : Layout) :
    (wantedPlans graph layout).map NodePlan.node = names graph.nodes := by
  rw [wantedPlans_eq_map, List.map_map]
  rfl

/-- The wanted plans of one node name agree, where a graph holds the moved nodes of another. -/
theorem agrees_of_mem_wantedPlans {move : Relocation} {graph other : Graph}
    (h : graph.Relocates move other) {layout : Layout} {plan twin : NodePlan}
    (hp : plan ∈ wantedPlans graph layout) (ht : twin ∈ wantedPlans other layout)
    (hnode : twin.node = plan.node) :
    plan.Agrees (wantedNarrowing? graph layout plan.node) (names graph.nodes) (names other.nodes)
      twin := by
  rw [wantedPlans_eq_map] at hp ht
  obtain ⟨node, hn, rfl⟩ := List.mem_map.mp hp
  obtain ⟨copy, hc, rfl⟩ := List.mem_map.mp ht
  have hcopy : copy = move.node node :=
    Catalog.eq_of_name_eq h.target.nodes hc (h.node_mem hn) hnode
  rw [hcopy]
  exact wantedPlan_agrees h layout hn

/-- The order of declarations is irrelevant to plans. If every name is declared once, and the same
nodes are declared in another order with the same roots, then one build succeeds exactly if the
other does. Every layout that passes its check then yields plans of both graphs, whatever
families it wants: the plans of each stand in the order of its declarations, and the plans of one
name are the same, but that the members of the qualification of an interface, which narrow to the
objects that implement it, come in the order in which the objects are declared. -/
theorem generate_reordered {steps others : List SchemaStep} (h : Reordered steps others)
    (id other : GraphId) (strictness : Strictness) :
    ((∃ graph, Graph.build id strictness steps = .ok graph) ↔
        ∃ copy, Graph.build other strictness others = .ok copy) ∧
      ∀ graph copy, Graph.build id strictness steps = .ok graph →
        Graph.build other strictness others = .ok copy →
        ∀ layout : Layout, layout.check = .ok () →
          ∃ plans twins, generate graph layout = .ok plans ∧ generate copy layout = .ok twins ∧
            plans.map NodePlan.node = names (Schema.declarations steps) ∧
            twins.map NodePlan.node = names (Schema.declarations others) ∧
            ∀ plan ∈ plans, ∀ twin ∈ twins, twin.node = plan.node →
              plan.Agrees (wantedNarrowing? graph layout plan.node)
                (names (Schema.declarations steps)) (names (Schema.declarations others)) twin := by
  refine ⟨h.build_ok_iff id other strictness, ?_⟩
  intro graph copy hg hc layout hl
  have hgraph := h.names_nodes hg
  have hcopy := h.symm.names_nodes hc
  refine ⟨wantedPlans graph layout, wantedPlans copy layout, generate_eq hl, generate_eq hl,
    ?_, ?_, ?_⟩
  · rw [map_node_wantedPlans, hgraph]
  · rw [map_node_wantedPlans, hcopy]
  · intro plan hp twin ht hnode
    rw [← hgraph, ← hcopy]
    exact agrees_of_mem_wantedPlans (h.relocates hg hc) hp ht hnode

/-- A layout without projections, to which the schema below refers. -/
def withoutProjections : Layout :=
  { Layout.usual with families := { Layout.Families.all with projection := false } }

/-- A schema with an interface that two objects implement, and with a query root. -/
def shelterSteps : List SchemaStep :=
  [ .query "Root",
    .node "Int" .scalar [],
    .node "Animal" .interface [.field "age" ⟨"Int", false, true⟩ false false [.comment "in years"]],
    .node "Dog" .object
      [.implements "Animal", .field "age" ⟨"Int", false, true⟩ false false []],
    .node "Cat" .object
      [ .implements "Animal",
        .field "age" ⟨"Int", false, true⟩ false false [],
        .field "enemies" ⟨"Dog", true, false⟩ false false
          [.argument "first" ⟨"Int", false, true⟩ false []] ],
    .node "Root" .query [.field "animals" ⟨"Animal", true, false⟩ false false []] ]

/-- The plans of the schema do not depend on its order, also without a family. -/
theorem generate_reordered_shelter :
    Reordered shelterSteps shelterSteps.reverse ∧
      ∃ graph copy, Graph.build ⟨0⟩ .strict shelterSteps = .ok graph ∧
        Graph.build ⟨1⟩ .strict shelterSteps.reverse = .ok copy ∧
        withoutProjections.check = .ok () ∧
        ∃ plans twins, generate graph withoutProjections = .ok plans ∧
          generate copy withoutProjections = .ok twins ∧
          plans.map NodePlan.node = ["Int", "Animal", "Dog", "Cat", "Root"] ∧
          twins.map NodePlan.node = ["Root", "Cat", "Dog", "Animal", "Int"] ∧
          ∀ plan ∈ plans, ∀ twin ∈ twins, twin.node = plan.node →
            plan.Agrees (wantedNarrowing? graph withoutProjections plan.node)
              ["Int", "Animal", "Dog", "Cat", "Root"] ["Root", "Cat", "Dog", "Animal", "Int"]
              twin := by
  have h : Reordered shelterSteps shelterSteps.reverse :=
    ⟨(List.reverse_perm shelterSteps).symm.filterMap _, by decide, rfl, rfl, rfl⟩
  obtain ⟨hiff, hplans⟩ := generate_reordered h ⟨0⟩ ⟨1⟩ .strict
  obtain ⟨graph, hg⟩ : ∃ graph, Graph.build ⟨0⟩ .strict shelterSteps = .ok graph := ⟨_, rfl⟩
  obtain ⟨copy, hc⟩ := hiff.mp ⟨graph, hg⟩
  have hl : withoutProjections.check = .ok () := rfl
  exact ⟨h, graph, copy, hg, hc, hl, hplans graph copy hg hc withoutProjections hl⟩

end QuerySurface.Plan
