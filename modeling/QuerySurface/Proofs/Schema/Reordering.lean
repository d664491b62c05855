import QuerySurface.Proofs.Schema.Relocation
import Mathlib.Data.List.GetD

/-!
# Reordered declarations

If every name is declared once, the order of the declarations decides on nothing but the order
of the nodes: the same problems are found, so one build succeeds exactly if the other does, and
then the nodes of one graph are those of the other, each moved to the place of its name.
-/

namespace QuerySurface.Schema

open Catalog (surviving names)

/-- The same nodes are declared, every name once, but in another order; and the same roots are
named. -/
structure Reordered (steps others : List SchemaStep) : Prop where
  /-- The declarations are the same, in some order. -/
  declarations : (declarations steps).Perm (Schema.declarations others)
  /-- No name is declared twice. -/
  nodup : (names (Schema.declarations steps)).Nodup
  /-- The query root is the same. -/
  query : namedQuery steps = namedQuery others
  /-- The mutation root is the same. -/
  mutation : namedMutation steps = namedMutation others
  /-- The subscription root is the same. -/
  subscription : namedSubscription steps = namedSubscription others

/-- The place that a node has among the other declarations. -/
def reordering (id : GraphId) (steps others : List SchemaStep) : Relocation where
  graph := id
  slot := fun slot =>
    (names (declarations others)).idxOf ((names (declarations steps)).getD slot "")

/-! ## Nodes that are declared once -/

/-- Along declarations that repeat no name, only what they repeat inside is found. -/
theorem foundAlong_takenName {before entries : List NodeDeclaration}
    (hn : (names (before ++ entries)).Nodup) :
    foundAlong (fun before (declared : NodeDeclaration) =>
      takenName (names before) declared.name declared.name .duplicateNode declared.name ++
        declared.duplicates) before entries = entries.flatMap NodeDeclaration.duplicates := by
  induction entries generalizing before with
  | nil => rfl
  | cons head rest ih =>
    have hnew : head.name ∉ names before := by
      rw [Catalog.names_append, Catalog.names_cons, List.nodup_append] at hn
      exact fun hm => hn.2.2 head.name hm head.name List.mem_cons_self rfl
    rw [foundAlong, takenName, if_neg hnew, List.nil_append, List.flatMap_cons, ih]
    rwa [List.append_assoc, List.singleton_append]

/-- Nodes of different names stand for themselves, each in the place of its name. -/
theorem declaredNodes_of_nodup (id : GraphId) {steps : List SchemaStep}
    (hn : (names (declarations steps)).Nodup) :
    declaredNodes id steps = (declarations steps).map fun declared =>
      declared.node id ((names (declarations steps)).idxOf declared.name) := by
  rw [declaredNodes, Catalog.surviving_of_nodup hn, Catalog.mapIdx_eq_map_idxOf _ hn]
  rfl

/-- A declared node goes to the place of its name. -/
theorem slot_reordering (id : GraphId) {steps : List SchemaStep} (others : List SchemaStep)
    {declared : NodeDeclaration} (hm : declared ∈ declarations steps) :
    (reordering id steps others).slot ((names (declarations steps)).idxOf declared.name) =
      (names (declarations others)).idxOf declared.name := by
  have hname : declared.name ∈ names (declarations steps) :=
    List.mem_map_of_mem (f := NodeDeclaration.name) hm
  have hlt := List.idxOf_lt_length_of_mem hname
  rw [reordering]
  dsimp only
  rw [List.getD_eq_getElem _ _ hlt, List.getElem_idxOf hlt]

namespace Reordered

variable {steps others : List SchemaStep} (h : Reordered steps others)
include h

/-- The names are the same, in some order. -/
theorem names_perm :
    (names (Schema.declarations steps)).Perm (names (Schema.declarations others)) :=
  h.declarations.map _

/-- Nor is a name declared twice in the other order. -/
theorem nodup_others : (names (Schema.declarations others)).Nodup :=
  h.names_perm.nodup_iff.mp h.nodup

/-! ## Problems -/

/-- Each name has the same kind. -/
theorem declaredKind?_eq : declaredKind? steps = declaredKind? others := by
  funext name
  rw [declaredKind?, declaredKind?, Catalog.last?_eq_find? h.nodup,
    Catalog.last?_eq_find? h.nodup_others, Catalog.find?_perm h.declarations h.nodup]

/-- The same problems are found, in some order. -/
theorem problems_perm : (problems steps).Perm (problems others) := by
  have hduplicates : (duplicates steps).Perm (duplicates others) := by
    rw [duplicates, duplicates, foundAlong_takenName h.nodup, foundAlong_takenName h.nodup_others]
    exact h.declarations.flatMap_right _
  have hsurviving : (surviving (Schema.declarations steps)).Perm
      (surviving (Schema.declarations others)) := by
    rw [Catalog.surviving_of_nodup h.nodup, Catalog.surviving_of_nodup h.nodup_others]
    exact h.declarations
  rw [problems, problems, unresolvedNames_congr h.declaredKind?_eq,
    missingTypes_congr h.declaredKind?_eq, wrongRoot_congr h.declaredKind?_eq, h.query, h.mutation,
    h.subscription]
  exact ((((hduplicates.append (hsurviving.flatMap_right _)).append
    (hsurviving.flatMap_right _)).append_right _).append_right _).append_right _

/-- A build succeeds exactly if the build of the other order does. -/
theorem build_ok_iff (id other : GraphId) (strictness : Strictness) :
    (∃ graph, Graph.build id strictness steps = .ok graph) ↔
      ∃ copy, Graph.build other strictness others = .ok copy := by
  have hok : ∀ (id : GraphId) (steps : List SchemaStep),
      (∃ graph, Graph.build id strictness steps = .ok graph) ↔
        ∀ item ∈ reported strictness (problems steps), item.severity = .warning := by
    intro id steps
    rw [← build_eq_ok_iff id]
    exact ⟨fun ⟨graph, hg⟩ => eq_declaredGraph_of_build hg ▸ hg, fun hg => ⟨_, hg⟩⟩
  have hreported : (reported strictness (problems steps)).Perm
      (reported strictness (problems others)) := h.problems_perm.filterMap _
  rw [hok, hok]
  simp only [hreported.mem_iff]

/-! ## Graphs -/

/-- The moved nodes are those of the other order. -/
theorem nodes_perm (id other : GraphId) :
    ((declaredNodes id steps).map (reordering other steps others).node).Perm
      (declaredNodes other others) := by
  rw [declaredNodes_of_nodup id h.nodup, declaredNodes_of_nodup other h.nodup_others, List.map_map]
  have hmoved : ∀ declared ∈ Schema.declarations steps,
      (reordering other steps others).node
          (declared.node id ((names (Schema.declarations steps)).idxOf declared.name)) =
        declared.node other ((names (Schema.declarations others)).idxOf declared.name) := by
    intro declared hm
    rw [Relocation.node_declared, slot_reordering other others hm]
    rfl
  exact (List.Perm.of_eq (List.map_congr_left hmoved)).trans (h.declarations.map _)

/-- A graph has its nodes in the order of the declarations. -/
theorem names_nodes {id : GraphId} {strictness : Strictness} {graph : Graph}
    (hg : Graph.build id strictness steps = .ok graph) :
    names graph.nodes = names (Schema.declarations steps) := by
  rw [nodes_of_build hg, names_declaredNodes, Catalog.surviving_of_nodup h.nodup]

/-- The order of the declarations is the reordered one of its reordering. -/
theorem symm : Reordered others steps :=
  ⟨h.declarations.symm, h.nodup_others, h.query.symm, h.mutation.symm, h.subscription.symm⟩

/-- A graph that is built from the other order holds the moved nodes. -/
theorem relocates {id other : GraphId} {strictness second : Strictness} {graph copy : Graph}
    (hg : Graph.build id strictness steps = .ok graph)
    (hc : Graph.build other second others = .ok copy) :
    graph.Relocates (reordering other steps others) copy := by
  refine Graph.relocates_of_perm (Graph.housed_of_build hg) (Graph.housed_of_build hc) ?_
  rw [nodes_of_build hg, nodes_of_build hc]
  exact h.nodes_perm id other

end Reordered

end QuerySurface.Schema
