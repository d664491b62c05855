import QuerySurface.Proofs.Plan.Relocation

/-!
# Plans of extended schemas

A schema is extended by a node that is declared last and that nothing mentions. Whatever was
derived of the other nodes stays: the node is not seen by the interfaces that are implemented, by
overridden fields and the comments along their chains, nor by the types of values. It is seen in one
place only. If it is an object, every interface that it implements narrows to it too, behind all
the objects that came before.
-/

namespace QuerySurface.Schema

open Catalog (surviving names)

/-! ## Graphs of extended declarations -/

/-- One more declaration, under a name that is not there yet, comes last. -/
theorem declaredNodes_concat (id : GraphId) {steps : List SchemaStep} {step : SchemaStep}
    {declared : NodeDeclaration} (hs : step.node? = some declared)
    (hnew : declared.name ∉ names (declaredNodes id steps)) :
    declaredNodes id (steps ++ [step]) =
      declaredNodes id steps ++ [declared.node id (surviving (declarations steps)).length] := by
  have hdeclarations : declarations (steps ++ [step]) = declarations steps ++ [declared] := by
    simp [declarations, hs]
  rw [names_declaredNodes] at hnew
  rw [declaredNodes, hdeclarations, Catalog.surviving_concat, Catalog.put_of_not_mem hnew,
    List.mapIdx_concat]
  rfl

/-- A graph that is built with one more node, which nothing mentions, holds the nodes of the graph
without it, in their order, and then this node. -/
theorem Graph.extends_of_build {id other : GraphId} {strictness second : Strictness}
    {steps : List SchemaStep} {name : String} {kind : Kind} {body : List NodeStep}
    {graph extended : Graph} (h : Graph.build id strictness steps = .ok graph)
    (he : Graph.build other second (steps ++ [.node name kind body]) = .ok extended)
    (hm : name ∉ graph.mentioned) :
    ∃ node, node.name = name ∧ node.kind = kind ∧
      extended.nodes = graph.nodes.map (Relocation.onto other).node ++ [node] ∧
      Graph.Extends (Relocation.onto other) graph extended [node] := by
  have hnodes := nodes_of_build h
  have hnew : name ∉ names graph.nodes := by
    intro hname
    obtain ⟨node, hn, rfl⟩ := List.mem_map.mp hname
    exact hm (Graph.name_mem_mentioned hn)
  have hother : names (declaredNodes other steps) = names graph.nodes := by
    rw [hnodes, names_declaredNodes, names_declaredNodes]
  have hstep : (SchemaStep.node name kind body).node? = some ⟨name, kind, body⟩ := rfl
  have hextended := nodes_of_build he
  rw [declaredNodes_concat other hstep (hother.symm ▸ hnew), ← declaredNodes_onto id other,
    ← hnodes] at hextended
  refine ⟨_, rfl, rfl, hextended, Graph.housed_of_build h, Graph.housed_of_build he,
    .of_eq hextended.symm, ?_⟩
  intro node hn
  rw [List.mem_singleton.mp hn]
  exact hm

end QuerySurface.Schema

namespace QuerySurface.Plan

open Schema (Graph GraphId Kind Node NodeStep Relocation SchemaStep Strictness)
open Catalog (names)

/-! ## One more member -/

/-- An abstraction with one more member at its end if it is a qualification. -/
def Abstraction.gaining (member : Member) (abstraction : Abstraction) : Abstraction :=
  if abstraction.family = .qualification then
    { abstraction with members := abstraction.members ++ [member] }
  else abstraction

/-- A plan whose qualification has one more member at its end. -/
def NodePlan.gaining (member : Member) (plan : NodePlan) : NodePlan :=
  { plan with abstractions := plan.abstractions.map (Abstraction.gaining member) }

namespace Engine

/-- Selections and queries have no narrowing members to gain. -/
theorem map_gaining_selections (engine : Engine) (member : Member) (node : Node) :
    (engine.selections node).map (Abstraction.gaining member) = engine.selections node := by
  have hsame : ∀ abstraction ∈ engine.selections node,
      Abstraction.gaining member abstraction = abstraction := by
    intro abstraction hm
    obtain ⟨field, -, hpair⟩ := List.mem_flatMap.mp hm
    rcases List.mem_pair.mp hpair with rfl | rfl <;> rfl
  rw [List.map_congr_left hsame, List.map_id']

section Extended

variable {move : Relocation} {graph other : Graph} {added : Node}
  (h : Graph.Extends move graph other [added]) (layout : Layout)
include h

/-- The node that is added narrows an interface if it is an object that implements it. -/
theorem narrowing?_added {node : Node} (hn : node ∈ graph.nodes) :
    (mk other layout).narrowing? (move.node node) added.name =
      if added.kind = .object ∧ node.name ∈ names (other.implements added) then
        some (.method ((mk other layout).narrowing added))
      else none := by
  have hfound : other.node? added.name = some added := h.node?_more List.mem_cons_self
  have hmember : ∀ parent ∈ other.implements added,
      parent.same (move.node node) = (parent.name == node.name) := by
    intro parent hp
    have hhome : parent.graph = (move.node node).graph :=
      (h.target.home parent (Schema.mem_resolve hp).1).trans
        (h.target.home _ (h.node_mem hn)).symm
    rw [Node.same, hhome]
    simp [Relocation.node]
  have hany : (other.implements added).any (·.same (move.node node)) = true ↔
      node.name ∈ names (other.implements added) := by
    rw [List.any_eq_true, names, List.mem_map]
    refine exists_congr fun parent => and_congr_right fun hp => ?_
    rw [hmember parent hp, beq_iff_eq]
    rfl
  rw [narrowing?, hfound, Option.filter_some]
  simp only [Bool.and_eq_true, beq_iff_eq, hany]
  split <;> rfl

/-- The qualification of an interface has the members that it had, and one for the node that is
added if this is an object that implements the interface. -/
theorem members_qualificationOf_extended
    (ho : other.nodes = graph.nodes.map move.node ++ [added]) {node : Node}
    (hn : node ∈ graph.nodes) (hk : node.kind = .interface) :
    ((mk other layout).qualificationOf (move.node node)).members =
      ((mk graph layout).qualificationOf node).members ++
        if added.kind = .object ∧ node.name ∈ names (other.implements added) then
          [.method ((mk other layout).narrowing added)]
        else [] := by
  have hmoved : (move.node node).kind = .interface := hk
  have hnames : names other.nodes = names graph.nodes ++ [added.name] := by
    rw [ho, Catalog.names_append, names, List.map_map]
    rfl
  have hold : ∀ name ∈ names graph.nodes,
      (mk other layout).narrowing? (move.node node) name =
        (mk graph layout).narrowing? node name := by
    intro name hname
    obtain ⟨found, hf, rfl⟩ := List.mem_map.mp hname
    exact narrowing?_moved h layout hn (h.not_mem_names (Graph.name_mem_mentioned hf))
  rw [members_qualificationOf _ h.target.nodes hmoved, members_qualificationOf _ h.source.nodes hk,
    hnames, List.filterMap_append, List.filterMap_congr hold, List.filterMap_cons,
    narrowing?_added h layout hn]
  by_cases hgains : added.kind = .object ∧ node.name ∈ names (other.implements added)
  · rw [if_pos hgains, if_pos hgains]
    rfl
  · rw [if_neg hgains, if_neg hgains]
    rfl

/-- The plan of a node stays, but that an interface narrows to the node that is added if this is an
object that implements it. -/
theorem derived_extended (ho : other.nodes = graph.nodes.map move.node ++ [added]) {node : Node}
    (hn : node ∈ graph.nodes) :
    (mk other layout).derived (move.node node) =
      if added.kind = .object ∧ node.kind = .interface ∧
          node.name ∈ names (other.implements added) then
        ((mk graph layout).derived node).gaining (.method ((mk other layout).narrowing added))
      else (mk graph layout).derived node := by
  have hmoved : (move.node node).kind = node.kind := rfl
  have hentity := entity_moved h layout hn
  have hprojection := projection_moved h layout hn
  have hselections := selections_moved h layout hn
  have hqualified : (mk other layout).qualifiedProjectionOf (move.node node) =
      (mk graph layout).qualifiedProjectionOf node := rfl
  have hname : (move.node node).name = node.name := rfl
  by_cases hk : node.kind = .interface
  · have hmembers := members_qualificationOf_extended h layout ho hn hk
    have hqualification : (mk other layout).qualificationOf (move.node node) =
        { (mk graph layout).qualificationOf node with
          members := ((mk other layout).qualificationOf (move.node node)).members } := rfl
    rw [hmembers] at hqualification
    simp only [derived, abstractions, hmoved, hname, hk, hentity, hprojection, hselections,
      hqualified, hqualification, true_and]
    split
    · simp only [NodePlan.gaining, List.map_append, map_gaining_selections]
      rfl
    · rw [List.append_nil]
  · rw [if_neg fun hgains => hk hgains.2.1]
    simp only [derived, abstractions, hmoved, hname, hentity, hprojection, hselections, hqualified]
    -- Of the kinds with a qualification only the union is left.
    cases hkind : node.kind with
    | interface => exact absurd hkind hk
    | union => rw [qualificationOf_moved h layout hn hkind]
    | _ => rfl

end Extended

end Engine

/-! ## Plans of extended declarations -/

/-- Extending a schema is local. Let a graph be built from some declarations, and another one from
the same declarations with a node declared last whose name no part of the graph mentions. Under
any layout the plans of the larger graph are those of the graph, in their order, and then the plan
of the node; and the plans of the graph are unchanged, but that the qualification of each interface
that the node implements, if the node is an object, has one more member at its end, which narrows
to the node. -/
theorem plans_extended {id other : GraphId} {strictness second : Strictness}
    {steps : List SchemaStep} {name : String} {kind : Kind} {body : List NodeStep}
    {graph extended : Graph} (h : Graph.build id strictness steps = .ok graph)
    (he : Graph.build other second (steps ++ [.node name kind body]) = .ok extended)
    (hm : name ∉ graph.mentioned) (layout : Layout) :
    ∃ plans node plan, (Engine.mk graph layout).plans = .ok plans ∧
      extended.node? name = some node ∧ node.kind = kind ∧
      (Engine.mk extended layout).plan node = .ok plan ∧
      (Engine.mk extended layout).plans =
        .ok (plans.map (fun old =>
            if kind = .object ∧ old.kind = .interface ∧
                old.node ∈ names (extended.implements node) then
              old.gaining (.method ((Engine.mk extended layout).narrowing node))
            else old) ++ [plan]) := by
  obtain ⟨node, rfl, rfl, hnodes, hextends⟩ := Graph.extends_of_build h he hm
  have hfound : extended.node? node.name = some node := hextends.node?_more List.mem_cons_self
  refine ⟨_, node, _, Engine.plansOf_eq _ _, hfound, rfl, Engine.plan_eq _ _, ?_⟩
  rw [Engine.plans, Engine.plansOf_eq]
  dsimp only
  rw [hnodes, List.map_append, List.map_map, List.map_map, List.map_cons, List.map_nil]
  congr 2
  apply List.map_congr_left
  intro old hold
  exact Engine.derived_extended hextends layout hnodes hold

/-- Two interfaces that implement each other, with comments on one side only, and an object. -/
def circularSteps : List SchemaStep :=
  [ .node "Int" .scalar [],
    .node "Animal" .interface
      [.implements "Pet", .field "age" ⟨"Int", false, true⟩ false false []],
    .node "Pet" .interface
      [ .implements "Animal",
        .field "age" ⟨"Int", false, true⟩ false false [.comment "in years"] ],
    .node "Dog" .object
      [ .implements "Animal",
        .field "age" ⟨"Int", false, true⟩ false false [],
        .field "owner" ⟨"Person", false, true⟩ false false
          [.argument "since" ⟨"Int", false, true⟩ false []] ],
    .node "Person" .object [.field "pets" ⟨"Animal", true, false⟩ false false []] ]

/-- An object that implements one of the interfaces, and refers to itself and to the other
object. -/
def catBody : List NodeStep :=
  [ .implements "Animal",
    .field "age" ⟨"Int", false, true⟩ false false [],
    .field "enemies" ⟨"Dog", true, false⟩ false false [],
    .field "kittens" ⟨"Cat", true, false⟩ false false [] ]

/-- The cat is added to the plans, and to the qualification of the interface that it implements. -/
theorem plans_extended_cat :
    ∃ graph extended, Graph.build ⟨0⟩ .strict circularSteps = .ok graph ∧
      Graph.build ⟨1⟩ .strict (circularSteps ++ [.node "Cat" .object catBody]) = .ok extended ∧
      "Cat" ∉ graph.mentioned ∧
      ∃ plans node plan, (Engine.mk graph .usual).plans = .ok plans ∧
        extended.node? "Cat" = some node ∧ names (extended.implements node) = ["Animal"] ∧
        (Engine.mk extended .usual).plan node = .ok plan ∧
        (Engine.mk extended .usual).plans =
          .ok (plans.map (fun old =>
              if Kind.object = .object ∧ old.kind = .interface ∧ old.node ∈ ["Animal"] then
                old.gaining (.method ((Engine.mk extended .usual).narrowing node))
              else old) ++ [plan]) := by
  obtain ⟨graph, h, hm⟩ : ∃ graph, Graph.build ⟨0⟩ .strict circularSteps = .ok graph ∧
      "Cat" ∉ graph.mentioned := ⟨_, rfl, by decide⟩
  obtain ⟨extended, he, hanimal⟩ : ∃ extended,
      Graph.build ⟨1⟩ .strict (circularSteps ++ [.node "Cat" .object catBody]) = .ok extended ∧
        (extended.node? "Cat").map (fun node => names (extended.implements node)) =
          some ["Animal"] :=
    ⟨_, rfl, rfl⟩
  obtain ⟨plans, node, plan, hplans, hnode, -, hplan, hextended⟩ :=
    plans_extended h he hm .usual
  rw [hnode] at hanimal
  have himplements : names (extended.implements node) = ["Animal"] := Option.some.inj hanimal
  rw [himplements] at hextended
  exact ⟨graph, extended, h, he, hm, plans, node, plan, hplans, hnode, himplements, hplan,
    hextended⟩

end QuerySurface.Plan
