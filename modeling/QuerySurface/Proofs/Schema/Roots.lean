import QuerySurface.Proofs.Schema.Accounting

/-!
# Roots

The roots of a schema may be named before their nodes are declared, more than once or not at all,
and a node that was named may be declared again as another kind. Nothing of this is settled before
the end: then the last name counts, a root that has none is the first node of its kind, and a build
in which a named node is not of its kind fails under every strictness. So the roots of a graph that
was built are there exactly if they can be, and are what they are taken for.
-/

namespace QuerySurface.Schema

namespace Graph

/-- A root of a kind is settled as the names say that were given for it. -/
structure Settles (graph : Graph) (kind : Kind) (named : List String) (root : Option Node) :
    Prop where
  /-- The root has the name that was given last. -/
  last : ∀ name, named.getLast? = some name → ∃ node, root = some node ∧ node.name = name
  /-- Without a name it is the first node of the kind. -/
  first : named = [] → root = graph.nodes.find? (·.kind == kind)
  /-- There is none exactly if no node is of the kind. -/
  none_iff : root = none ↔ ∀ node ∈ graph.nodes, node.kind ≠ kind
  /-- It is a node of the graph, and of the kind. -/
  sound : ∀ node, root = some node → node ∈ graph.nodes ∧ node.kind = kind

/-- The roots of a graph are those that steps declare. -/
structure Rooted (graph : Graph) (steps : List SchemaStep) : Prop where
  /-- The nodes stand in the order in which their names were first declared. -/
  order : Catalog.names graph.nodes = (Catalog.names (declarations steps)).eraseDups
  /-- A node is of the kind that was declared last. -/
  kinds : ∀ name, graph.kindOf? name = declaredKind? steps name
  /-- The query root is settled by the names given for it. -/
  query : graph.Settles .query (steps.filterMap SchemaStep.query?) graph.query?
  /-- The mutation root is settled by the names given for it. -/
  mutation : graph.Settles .mutation (steps.filterMap SchemaStep.mutation?) graph.mutation?
  /-- There is a subscription root exactly if one was named. -/
  subscription_isSome : graph.subscription?.isSome = true ↔ ∃ name, .subscription name ∈ steps
  /-- It is the object that was named last. -/
  subscription : ∀ name, (steps.filterMap SchemaStep.subscription?).getLast? = some name →
    ∃ node ∈ graph.nodes, graph.subscription? = some node ∧ node.name = name ∧
      node.kind = .object

/-- The problems of each root are among those of the steps. -/
theorem wrongRoot_subset_problems (steps : List SchemaStep) :
    wrongRoot steps "query" .query (namedQuery steps) ⊆ problems steps ∧
      wrongRoot steps "mutation" .mutation (namedMutation steps) ⊆ problems steps ∧
      wrongRoot steps "subscription" .object (namedSubscription steps) ⊆ problems steps := by
  refine ⟨?_, ?_, ?_⟩ <;>
  · intro problem hm
    simp only [problems, List.mem_append, hm, true_or, or_true]

/-- The names given for the subscription root are those of the steps that name one. -/
theorem mem_subscriptions_iff {steps : List SchemaStep} {name : String} :
    name ∈ steps.filterMap SchemaStep.subscription? ↔ .subscription name ∈ steps := by
  rw [List.mem_filterMap]
  constructor
  · rintro ⟨step, hm, hs⟩
    cases step with
    | subscription other => exact Option.some.inj hs ▸ hm
    | _ => cases hs
  · exact fun hm => ⟨_, hm, rfl⟩

section built

variable {id : GraphId} {strictness : Strictness} {steps : List SchemaStep} {graph : Graph}
  (h : Graph.build id strictness steps = .ok graph)
include h

/-! ## Roots that were named -/

/-- A name that was given for a root is that of a node of its kind: any other is an error. -/
theorem exists_node_of_wrongRoot {role : String} {kind : Kind} {name : String}
    (hp : wrongRoot steps role kind (some name) ⊆ problems steps) :
    ∃ node, graph.node? name = some node ∧ node.kind = kind := by
  have hkind : declaredKind? steps name = some kind := by
    by_contra hne
    have hm : .rootMismatch role kind name (declaredKind? steps name) ∈ problems steps := by
      apply hp
      rw [wrongRoot, if_neg hne]
      exact List.mem_singleton_self _
    exact level_ne_error_of_mem_problems h hm rfl
  rw [← kindOf?_of_build h] at hkind
  exact Option.map_eq_some_iff.mp hkind

/-! ## Roots that were not named -/

/-- The first surviving declaration of a kind is that of the first node of the kind. -/
theorem rootNamed_none (kind : Kind) :
    rootNamed steps kind none = (graph.nodes.find? (·.kind == kind)).map Node.name := by
  rw [nodes_of_build h]
  exact (Catalog.find?_mapIdx (NodeDeclaration.node id) _ _ (fun _ _ => rfl) Node.name
    NodeDeclaration.name (fun _ _ => rfl) _).symm

/-- Without a name the root is the first node of the kind: no other node has its name. -/
theorem bind_rootNamed_none (kind : Kind) :
    (rootNamed steps kind none).bind graph.node? = graph.nodes.find? (·.kind == kind) := by
  rw [rootNamed_none h]
  cases hf : graph.nodes.find? (·.kind == kind) with
  | none => rfl
  | some node => exact (indexed_of_build h).node?_name (List.mem_of_find?_eq_some hf)

/-! ## All roots -/

/-- A root whose problems would be found is settled. -/
theorem settles_rootNamed {role : String} {kind : Kind} {named : List String}
    (hp : wrongRoot steps role kind named.getLast? ⊆ problems steps) :
    graph.Settles kind named ((rootNamed steps kind named.getLast?).bind graph.node?) := by
  cases hl : named.getLast? with
  | some name =>
    rw [hl] at hp
    obtain ⟨node, hfound, hkind⟩ := exists_node_of_wrongRoot h hp
    have hroot : (rootNamed steps kind (some name)).bind graph.node? = some node := hfound
    have hmem : node ∈ graph.nodes := Catalog.mem_of_find? hfound
    rw [hroot]
    refine ⟨?_, ?_, ?_, ?_⟩
    · intro other ho
      obtain rfl : name = other := Option.some.inj (hl.symm.trans ho)
      exact ⟨node, rfl, Catalog.name_of_find? hfound⟩
    · rintro rfl
      cases hl
    · exact ⟨nofun, fun hnone => absurd hkind (hnone node hmem)⟩
    · intro other ho
      obtain rfl := Option.some.inj ho
      exact ⟨hmem, hkind⟩
  | none =>
    rw [bind_rootNamed_none h]
    refine ⟨?_, fun _ => rfl, ?_, ?_⟩
    · intro name hname
      cases hl.symm.trans hname
    · simp
    · intro node hn
      exact ⟨List.mem_of_find?_eq_some hn, by simpa using List.find?_some hn⟩

/-- A subscription root that was named is an object of the graph. -/
theorem exists_subscription {name : String} (hn : namedSubscription steps = some name) :
    ∃ node ∈ graph.nodes, graph.subscription? = some node ∧ node.name = name ∧
      node.kind = .object := by
  have hp := (wrongRoot_subset_problems steps).2.2
  rw [hn] at hp
  obtain ⟨node, hfound, hkind⟩ := exists_node_of_wrongRoot h hp
  have hroot : graph.subscription? = graph.node? name := by
    rw [subscription?, eq_declaredGraph_of_build h, declaredGraph, hn]
    rfl
  exact ⟨node, Catalog.mem_of_find? hfound, hroot.trans hfound, Catalog.name_of_find? hfound,
    hkind⟩

/-- There is a subscription root exactly if one was named. -/
theorem isSome_subscription?_iff :
    graph.subscription?.isSome = true ↔ ∃ name, .subscription name ∈ steps := by
  cases hn : namedSubscription steps with
  | some name =>
    obtain ⟨node, -, hroot, -⟩ := exists_subscription h hn
    rw [hroot]
    exact ⟨fun _ => ⟨name, mem_subscriptions_iff.mp (List.mem_of_getLast? hn)⟩, fun _ => rfl⟩
  | none =>
    have hnone : graph.subscription? = none := by
      rw [subscription?, congrArg Graph.subscription (eq_declaredGraph_of_build h), declaredGraph,
        hn]
      rfl
    rw [hnone]
    refine ⟨nofun, ?_⟩
    rintro ⟨name, hstep⟩
    have hmem := mem_subscriptions_iff.mpr hstep
    rw [List.getLast?_eq_none_iff.mp hn] at hmem
    cases hmem

end built

/-- The roots of a graph that was built from any steps. The query root is the node that was named
last for it, wherever and however often that was, or the first node of its kind if none was named.
There is none exactly if the graph has no node of the kind, and what there is is a node of the kind.
The mutation root is settled alike. There is a subscription root exactly if one was named, and it is
the object that was named last. -/
theorem rooted_of_build {id : GraphId} {strictness : Strictness} {steps : List SchemaStep}
    {graph : Graph} (h : Graph.build id strictness steps = .ok graph) : graph.Rooted steps := by
  obtain ⟨hquery, hmutation, -⟩ := wrongRoot_subset_problems steps
  have hg := eq_declaredGraph_of_build h
  have horder : Catalog.names graph.nodes = (Catalog.names (declarations steps)).eraseDups := by
    rw [nodes_of_build h]
    exact (lastWins_declaredNodes id steps).names_eq
  refine
    { order := horder
      kinds := kindOf?_of_build h
      query := ?_
      mutation := ?_
      subscription_isSome := isSome_subscription?_iff h
      subscription := fun name => exists_subscription h }
  · rw [query?, congrArg Graph.query hg]
    exact settles_rootNamed h hquery
  · rw [mutation?, congrArg Graph.mutation hg]
    exact settles_rootNamed h hmutation

end Graph

/-- A schema whose roots are named before they are declared. The query root is named twice and
becomes a query only when it is declared again, behind another query; the mutation root is not
named, and stands first among the mutations because its name was declared first. -/
def rootedSteps : List SchemaStep :=
  [ .query "Missing", .subscription "Write", .query "Read", .node "Write" .object [],
    .node "First" .query [], .node "Read" .object [], .node "Second" .mutation [],
    .subscription "Feed", .node "Feed" .object [], .node "Write" .mutation [],
    .node "Read" .query [] ]

/-- The schema can be built, and its roots are settled. -/
theorem rooted_rootedSteps :
    ∃ graph, Graph.build ⟨0⟩ .lenient rootedSteps = .ok graph ∧
      graph.query?.map Node.name = some "Read" ∧ graph.mutation?.map Node.name = some "Write" ∧
      graph.subscription?.map Node.name = some "Feed" ∧ graph.Rooted rootedSteps := by
  obtain ⟨graph, h, hquery, hmutation, hsubscription⟩ :
      ∃ graph, Graph.build ⟨0⟩ .lenient rootedSteps = .ok graph ∧
        graph.query?.map Node.name = some "Read" ∧ graph.mutation?.map Node.name = some "Write" ∧
        graph.subscription?.map Node.name = some "Feed" :=
    ⟨_, rfl, by decide, by decide, by decide⟩
  exact ⟨graph, h, hquery, hmutation, hsubscription, Graph.rooted_of_build h⟩

end QuerySurface.Schema
