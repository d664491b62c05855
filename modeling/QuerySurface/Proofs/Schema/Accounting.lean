import QuerySurface.Proofs.Schema.Places

/-!
# What becomes of names

A node gives the names of the interfaces that it implements, and a union those of its members. A
name that is not that of an interface or an object of the graph is passed over when it is resolved,
and a build reports it unless its strictness ignores such problems. Resolving passes over one more
name, without a report: an interface may name itself. So where such problems are errors, a graph
that was built has lost no other name.
-/

namespace QuerySurface.Schema

open Catalog (surviving)

/-- A name is that of one of some nodes. -/
def Kept (nodes : List Node) (name : String) : Prop :=
  ∃ target ∈ nodes, target.name = name

/-- A node is an interface, and a name is its own. -/
def Node.Own (node : Node) (name : String) : Prop :=
  node.kind = .interface ∧ name = node.name

namespace Graph

/-- A problem is among the diagnostics of a graph, whatever its severity. -/
def Reports (graph : Graph) (problem : Problem) : Prop :=
  ∃ item ∈ graph.diagnostics.items, item.node = problem.node ∧ item.code = problem.code ∧
    item.message = problem.message

/-- What becomes of the names that a node gives. -/
structure Accounted (graph : Graph) (node : Node) : Prop where
  /-- An implemented interface has the name of an interface, or the name is reported; an
  interface may also name itself. -/
  interfaces : ∀ name ∈ node.interfaces, ¬node.Own name →
    Kept (graph.implements node) name ∨ graph.Reports (.unresolvedInterface node.name name)
  /-- A member of a union has the name of a member, or the name is reported. -/
  members : node.kind = .union → ∀ name ∈ node.members,
    Kept (graph.unionMembers node) name ∨ graph.Reports (.unresolvedMember node.name name)

/-- No name that a node gives is lost, but for the own name of an interface. -/
structure Lossless (graph : Graph) (node : Node) : Prop where
  /-- The name of an interface is that of one that is implemented. -/
  interfaces : ∀ name ∈ node.interfaces, ¬node.Own name → Kept (graph.implements node) name
  /-- The name of a member of a union is that of a member. -/
  members : node.kind = .union → ∀ name ∈ node.members, Kept (graph.unionMembers node) name

/-! ## Names that are resolved -/

/-- The names that resolving keeps are those of other nodes of the kind. -/
theorem kept_resolve_iff {graph : Graph} {node : Node} {kind : Kind} {names : List String}
    {name : String} :
    Kept (graph.resolve node kind names) name ↔
      name ∈ names ∧ name ≠ node.name ∧ graph.kindOf? name = some kind := by
  constructor
  · rintro ⟨target, ht, rfl⟩
    obtain ⟨word, hw, hne, hfound, hk⟩ := mem_resolve_iff.mp ht
    have hname : target.name = word := Catalog.name_of_find? hfound
    rw [hname, kindOf?, hfound, Option.map_some, hk]
    exact ⟨hw, hne, rfl⟩
  · rintro ⟨hm, hne, hk⟩
    obtain ⟨target, hfound, hkind⟩ := Option.map_eq_some_iff.mp hk
    exact ⟨target, mem_resolve_iff.mpr ⟨name, hm, hne, hfound, hkind⟩,
      Catalog.name_of_find? hfound⟩

/-- The own name of a node is that of its kind. -/
theorem Indexed.kindOf?_name {graph : Graph} (h : graph.Indexed) {node : Node}
    (hn : node ∈ graph.nodes) : graph.kindOf? node.name = some node.kind := by
  rw [kindOf?, h.node?_name hn, Option.map_some]

/-- A name of the right kind is kept, unless it is the own name of a node of that kind. -/
theorem Indexed.kept_resolve {graph : Graph} (h : graph.Indexed) {node : Node}
    (hn : node ∈ graph.nodes) {kind : Kind} {names : List String} {name : String}
    (hm : name ∈ names) (hk : graph.kindOf? name = some kind)
    (hown : ¬(node.kind = kind ∧ name = node.name)) :
    Kept (graph.resolve node kind names) name := by
  refine kept_resolve_iff.mpr ⟨hm, ?_, hk⟩
  intro he
  have hkind : some node.kind = some kind := by
    rw [← h.kindOf?_name hn, ← he, hk]
  exact hown ⟨Option.some.inj hkind, he⟩

section built

variable {id : GraphId} {strictness : Strictness} {steps : List SchemaStep} {graph : Graph}
  (h : Graph.build id strictness steps = .ok graph)
include h

/-! ## Names that are reported -/

/-- The kinds of a graph that was built are those that were declared last. -/
theorem kindOf?_of_build (name : String) : graph.kindOf? name = declaredKind? steps name := by
  rw [← kindOf?_declaredDraft id strictness steps, kindOf?, node?, nodes_of_build h]
  rfl

/-- A problem of the steps is among the diagnostics in the severity of its level. -/
theorem mem_items_of_mem_problems {problem : Problem} (hp : problem ∈ problems steps)
    {severity : Severity} (hs : (strictness.level problem.code).severity? = some severity) :
    ⟨problem.node, problem.code, severity, problem.message, problem.context⟩ ∈
      graph.diagnostics.items := by
  have hd : problem.diagnostic? strictness =
      some ⟨problem.node, problem.code, severity, problem.message, problem.context⟩ := by
    rw [Problem.diagnostic?, hs, Option.map_some]
  rw [eq_declaredGraph_of_build h]
  exact List.mem_filterMap.mpr ⟨problem, hp, hd⟩

/-- A problem of the steps is reported, unless its level is to ignore it. -/
theorem reports_of_mem_problems {problem : Problem} (hp : problem ∈ problems steps)
    (hl : strictness.level problem.code ≠ .ignore) : graph.Reports problem := by
  cases hlevel : strictness.level problem.code with
  | error => exact ⟨_, mem_items_of_mem_problems h hp (congrArg _ hlevel), rfl, rfl, rfl⟩
  | warn => exact ⟨_, mem_items_of_mem_problems h hp (congrArg _ hlevel), rfl, rfl, rfl⟩
  | ignore => exact absurd hlevel hl

/-- A graph that was built has no problem of the steps at the level of errors. -/
theorem level_ne_error_of_mem_problems {problem : Problem} (hp : problem ∈ problems steps) :
    strictness.level problem.code ≠ .error := by
  intro he
  have hw := (build_eq_ok_iff id strictness steps).mp (eq_declaredGraph_of_build h ▸ h)
  have hm := mem_items_of_mem_problems h hp (congrArg Level.severity? he)
  rw [eq_declaredGraph_of_build h] at hm
  cases hw _ hm

/-- The names of a node that fit no interface or object are problems of the steps. -/
theorem mem_problems_of_kindOf?_ne {node : Node} (hn : node ∈ graph.nodes) (name : String) :
    (name ∈ node.interfaces → graph.kindOf? name ≠ some .interface →
        .unresolvedInterface node.name name ∈ problems steps) ∧
      (name ∈ node.members → graph.kindOf? name ≠ some .object →
        .unresolvedMember node.name name ∈ problems steps) := by
  rw [nodes_of_build h] at hn
  obtain ⟨slot, hs, rfl⟩ := List.mem_mapIdx.mp hn
  have hnames : ∀ problem ∈ unresolvedNames steps (surviving (declarations steps))[slot],
      problem ∈ problems steps := by
    intro problem hp
    have hm := List.mem_flatMap.mpr ⟨_, List.getElem_mem hs, hp⟩
    simp only [problems, List.mem_append, hm, true_or, or_true]
  rw [kindOf?_of_build h]
  constructor
  · intro hm hk
    exact hnames _ (List.mem_append_left _
      (List.mem_map_of_mem (List.mem_filter.mpr ⟨hm, bne_iff_ne.mpr hk⟩)))
  · intro hm hk
    exact hnames _ (List.mem_append_right _
      (List.mem_map_of_mem (List.mem_filter.mpr ⟨hm, bne_iff_ne.mpr hk⟩)))

/-- A name that a node gives is kept, or it is a problem of the steps. -/
theorem kept_or_mem_problems {node : Node} (hn : node ∈ graph.nodes) (name : String) :
    (name ∈ node.interfaces → ¬node.Own name →
        Kept (graph.implements node) name ∨
          .unresolvedInterface node.name name ∈ problems steps) ∧
      (node.kind = .union → name ∈ node.members →
        Kept (graph.unionMembers node) name ∨
          .unresolvedMember node.name name ∈ problems steps) := by
  have hi := indexed_of_build h
  have hp := mem_problems_of_kindOf?_ne h hn name
  constructor
  · intro hm hown
    by_cases hk : graph.kindOf? name = some .interface
    · exact .inl (hi.kept_resolve hn hm hk hown)
    · exact .inr (hp.1 hm hk)
  · intro hu hm
    by_cases hk : graph.kindOf? name = some .object
    · refine .inl (hi.kept_resolve hn hm hk ?_)
      rw [hu]
      exact fun hown => Kind.noConfusion hown.1
    · exact .inr (hp.2 hm hk)

end built

/-- What becomes of the names in a graph that was built from any steps. Unless the strictness
ignores unresolved names, the name of an interface that a node gives is that of an implemented
interface or reported of the node, and the name of a member of a union is that of a member or
reported of the union; only the own name of an interface may be neither. Under a strictness that
makes them errors nothing else is lost. -/
theorem accounted_of_build {id : GraphId} {strictness : Strictness} {steps : List SchemaStep}
    {graph : Graph} (h : Graph.build id strictness steps = .ok graph)
    (hl : strictness.unresolvedInterface ≠ .ignore) :
    ∀ node ∈ graph.nodes, graph.Accounted node ∧
      (strictness.unresolvedInterface = .error → graph.Lossless node) := by
  intro node hn
  have hkept := kept_or_mem_problems h hn
  refine ⟨⟨?_, ?_⟩, fun he => ⟨?_, ?_⟩⟩
  · intro name hm hown
    exact ((hkept name).1 hm hown).imp_right fun hp => reports_of_mem_problems h hp hl
  · intro hu name hm
    exact ((hkept name).2 hu hm).imp_right fun hp => reports_of_mem_problems h hp hl
  · intro name hm hown
    exact ((hkept name).1 hm hown).resolve_right fun hp =>
      level_ne_error_of_mem_problems h hp he
  · intro hu name hm
    exact ((hkept name).2 hu hm).resolve_right fun hp =>
      level_ne_error_of_mem_problems h hp he

end Graph

/-- A schema in which names of interfaces and of members fit, fit nothing, and repeat. -/
def strayingSteps : List SchemaStep :=
  [ .node "Named" .interface [.implements "Named"],
    .node "Dog" .object [.implements "Named", .implements "Pet", .implements "Dog"],
    .node "Pet" .union [.member "Dog", .member "Named", .member "Cat", .member "Dog"] ]

/-- A schema in which all names fit, one of them that of the interface itself. -/
def fittingSteps : List SchemaStep :=
  [ .node "Named" .interface [.implements "Named"],
    .node "Dog" .object [.implements "Named"],
    .node "Pet" .union [.member "Dog"] ]

/-- Straying names are accounted for where they are warned of, and fitting names are kept where
nothing is allowed. -/
theorem accounted_straying_fitting :
    (∃ graph, Graph.build ⟨0⟩ .lenient strayingSteps = .ok graph ∧
        graph.diagnostics.items.length = 4 ∧ ∀ node ∈ graph.nodes, graph.Accounted node) ∧
      ∃ graph, Graph.build ⟨0⟩ .strict fittingSteps = .ok graph ∧
        ∀ node ∈ graph.nodes, graph.Lossless node := by
  obtain ⟨straying, hs, hlength⟩ : ∃ graph, Graph.build ⟨0⟩ .lenient strayingSteps = .ok graph ∧
      graph.diagnostics.items.length = 4 := ⟨_, rfl, by decide⟩
  obtain ⟨fitting, hf⟩ : ∃ graph, Graph.build ⟨0⟩ .strict fittingSteps = .ok graph := ⟨_, rfl⟩
  refine ⟨⟨straying, hs, hlength, ?_⟩, fitting, hf, ?_⟩
  · intro node hn
    exact (Graph.accounted_of_build hs (by decide) node hn).1
  · intro node hn
    exact (Graph.accounted_of_build hf (by decide) node hn).2 rfl

/-- An interface that names itself is built without a diagnostic even where nothing is allowed, and
it does not implement itself. -/
theorem not_accounted_own_name :
    ¬∀ (id : GraphId) (strictness : Strictness) (steps : List SchemaStep) (graph : Graph),
      Graph.build id strictness steps = .ok graph → strictness.unresolvedInterface ≠ .ignore →
      ∀ node ∈ graph.nodes, ∀ name ∈ node.interfaces,
        Kept (graph.implements node) name ∨
          graph.Reports (.unresolvedInterface node.name name) := by
  intro hall
  obtain ⟨graph, hb, node, hn, hm, himplements, hitems⟩ :
      ∃ graph, Graph.build ⟨0⟩ .strict [.node "Animal" .interface [.implements "Animal"]] =
          .ok graph ∧
        ∃ node ∈ graph.nodes, "Animal" ∈ node.interfaces ∧ graph.implements node = [] ∧
          graph.diagnostics.items = [] :=
    ⟨_, rfl, _, List.mem_cons_self, by decide, by decide, by decide⟩
  rcases hall ⟨0⟩ .strict _ graph hb (by decide) node hn "Animal" hm with hkept | hreports
  · obtain ⟨target, ht, _⟩ := hkept
    rw [himplements] at ht
    cases ht
  · obtain ⟨item, hi, _⟩ := hreports
    rw [hitems] at hi
    cases hi

end QuerySurface.Schema
