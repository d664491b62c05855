import QuerySurface.Proofs.Schema.Relocation

/-!
# Strictness never changes content

A strictness setting grades the problems of declarations and decides by this whether a build
fails. Two runs over the same steps under two settings are compared here. If both succeed, their
graphs are one graph under two identities, with the same derived facts; and a setting that is no
stricter succeeds wherever the other does, with some of its warnings and no others.
-/

namespace QuerySurface.Schema

/-! ## The order of levels -/

/-- How grave a level takes problems. -/
def Level.rank : Level → Nat
  | .ignore => 0
  | .warn => 1
  | .error => 2

/-- A setting takes no class of problems graver than another. -/
def Strictness.AtMost (strictness other : Strictness) : Prop :=
  strictness.duplicateDefinition.rank ≤ other.duplicateDefinition.rank ∧
    strictness.unresolvedInterface.rank ≤ other.unresolvedInterface.rank

/-- Whether a setting is no stricter than another can be computed. -/
instance (strictness other : Strictness) : Decidable (strictness.AtMost other) :=
  inferInstanceAs (Decidable (_ ∧ _))

/-- A setting that is no stricter takes no code graver. -/
theorem Strictness.AtMost.rank_level_le {strictness other : Strictness}
    (h : strictness.AtMost other) (code : Code) :
    (strictness.level code).rank ≤ (other.level code).rank := by
  cases code with
  | duplicateNode | duplicateField | duplicateArgument | duplicateEnumValue => exact h.1
  | unresolvedInterface | unresolvedUnionMember => exact h.2
  | unresolvedType | rootKindMismatch => exact le_rfl

/-- Below a level of warnings there are the same warnings or nothing. -/
theorem Level.severity?_of_rank_le {level other : Level} (h : level.rank ≤ other.rank)
    (hw : other.severity? ≠ some .error) :
    level.severity? = none ∨ level.severity? = other.severity? := by
  cases level <;> cases other <;> simp_all [Level.severity?, Level.rank]

/-! ## Reports of two settings -/

/-- A problem that one setting warns of at most, a setting that is no stricter drops or reports
alike. -/
theorem Strictness.AtMost.diagnostic?_eq {strictness other : Strictness}
    (h : strictness.AtMost other) {problem : Problem}
    (hw : ∀ item, problem.diagnostic? other = some item → item.severity = .warning) :
    problem.diagnostic? strictness = none ∨
      problem.diagnostic? strictness = problem.diagnostic? other := by
  have hne : (other.level problem.code).severity? ≠ some .error := by
    intro he
    cases hw ⟨problem.node, problem.code, .error, problem.message, problem.context⟩
      (by rw [Problem.diagnostic?, he]; rfl)
  unfold Problem.diagnostic?
  rcases Level.severity?_of_rank_le (h.rank_level_le problem.code) hne with hd | hd
  · exact .inl (by rw [hd]; rfl)
  · exact .inr (by rw [hd])

/-- Where one setting reports warnings only, a setting that is no stricter reports some of these
warnings, in their order. -/
theorem Strictness.AtMost.reported_sublist {strictness other : Strictness}
    (h : strictness.AtMost other) {problems : List Problem}
    (hw : ∀ item ∈ reported other problems, item.severity = .warning) :
    (reported strictness problems).Sublist (reported other problems) := by
  induction problems with
  | nil => exact List.Sublist.slnil
  | cons problem rest ih =>
    have hhead : ∀ item, problem.diagnostic? other = some item → item.severity = .warning :=
      fun item hd => hw item (List.mem_filterMap.mpr ⟨problem, List.mem_cons_self, hd⟩)
    have hrest : (reported strictness rest).Sublist (reported other rest) := by
      refine ih fun item hm => hw item ?_
      obtain ⟨source, hs, hd⟩ := List.mem_filterMap.mp hm
      exact List.mem_filterMap.mpr ⟨source, List.mem_cons_of_mem _ hs, hd⟩
    rw [reported, reported, List.filterMap_cons, List.filterMap_cons]
    -- The problem is dropped, or it is reported as under the other setting.
    rcases h.diagnostic?_eq hhead with hd | hd <;> rw [hd]
    · cases problem.diagnostic? other with
      | none => exact hrest
      | some item => exact hrest.cons item
    · cases problem.diagnostic? other with
      | none => exact hrest
      | some item => exact hrest.cons_cons item

/-! ## Graphs of two settings -/

/-- Two graphs are one, apart from their identities and diagnostics: the nodes with all they have,
in one order, and the roots; and every derived fact about the one is that about the other. -/
structure Graph.SameContent (graph other : Graph) : Prop where
  /-- The other graph is the graph under its own identity, with its own diagnostics. -/
  content : other = { graph.renamed other.id with diagnostics := other.diagnostics }
  /-- The query roots are. -/
  query : other.query? = graph.query?.map (Relocation.onto other.id).node
  /-- The mutation roots are. -/
  mutation : other.mutation? = graph.mutation?.map (Relocation.onto other.id).node
  /-- The subscription roots are. -/
  subscription : other.subscription? = graph.subscription?.map (Relocation.onto other.id).node
  /-- Implemented interfaces are. -/
  implements : ∀ node, other.implements ((Relocation.onto other.id).node node) =
    (graph.implements node).map (Relocation.onto other.id).node
  /-- The objects that a value can be are. -/
  possibleObjects : ∀ node ∈ graph.nodes,
    other.possibleObjects ((Relocation.onto other.id).node node) =
      (graph.possibleObjects node).map (Relocation.onto other.id).node
  /-- Overridden fields are. -/
  overridden : ∀ field ∈ graph.fields,
    other.overridden? ((Relocation.onto other.id).field field) =
      (graph.overridden? field).map (Relocation.onto other.id).field
  /-- The fields along which comments are looked up are. -/
  chain : ∀ field ∈ graph.fields,
    other.chain ((Relocation.onto other.id).field field) =
      (graph.chain field).map (Relocation.onto other.id).field

/-- Two builds of the same steps have the same content. -/
theorem sameContent_of_build {id other : GraphId} {strictness second : Strictness}
    {steps : List SchemaStep} {graph copy : Graph}
    (h : Graph.build id strictness steps = .ok graph)
    (hc : Graph.build other second steps = .ok copy) : graph.SameContent copy := by
  have hcontent : copy = { graph.renamed copy.id with diagnostics := copy.diagnostics } := by
    rw [eq_declaredGraph_of_build h, eq_declaredGraph_of_build hc, renamed_declaredGraph]
    rfl
  have hnodes : graph.nodes.map (Relocation.onto copy.id).node = copy.nodes :=
    (congrArg Graph.nodes hcontent).symm
  have hmove : graph.Relocates (Relocation.onto copy.id) copy :=
    Graph.relocates_of_perm (Graph.housed_of_build h) (Graph.housed_of_build hc) (.of_eq hnodes)
  have hroot : ∀ root : Option String,
      root.bind copy.node? = (root.bind graph.node?).map (Relocation.onto copy.id).node := by
    intro root
    cases root with
    | none => rfl
    | some name => exact hmove.node?_eq List.not_mem_nil
  exact {
    content := hcontent
    query := by
      rw [Graph.query?, congrArg Graph.query hcontent]
      exact hroot graph.query
    mutation := by
      rw [Graph.mutation?, congrArg Graph.mutation hcontent]
      exact hroot graph.mutation
    subscription := by
      rw [Graph.subscription?, congrArg Graph.subscription hcontent]
      exact hroot graph.subscription
    implements := fun _ => hmove.implements_eq fun _ _ => List.not_mem_nil
    possibleObjects := fun _ hn => hmove.possibleObjects_eq hnodes hn
    overridden := fun _ hf => hmove.overridden?_eq hf
    chain := fun _ hf => hmove.chain_eq hf }

/-- A build that succeeds under one setting succeeds under any that is no stricter, and then has
some of its warnings. -/
theorem build_of_atMost {id other : GraphId} {strictness second : Strictness}
    {steps : List SchemaStep} {graph : Graph}
    (h : Graph.build id strictness steps = .ok graph) (hs : second.AtMost strictness) :
    ∃ copy, Graph.build other second steps = .ok copy ∧
      copy.diagnostics.items.Sublist graph.diagnostics.items := by
  have hg := eq_declaredGraph_of_build h
  have hw := (build_eq_ok_iff id strictness steps).mp (hg ▸ h)
  have hsub := hs.reported_sublist hw
  have hok := (build_eq_ok_iff other second steps).mpr fun item hm => hw item (hsub.subset hm)
  refine ⟨_, hok, ?_⟩
  rw [hg]
  exact hsub

/-- Strictness decides on failure and reports only. For any steps and any two settings: if both
builds succeed, they yield one graph but for its identity and its diagnostics; and if the second
setting is no stricter and the first build succeeds, the second succeeds too, and its diagnostics
are some of those of the first, in their order. -/
theorem build_strictness (id other : GraphId) (strictness second : Strictness)
    (steps : List SchemaStep) :
    (∀ graph copy, Graph.build id strictness steps = .ok graph →
        Graph.build other second steps = .ok copy → graph.SameContent copy) ∧
      (second.AtMost strictness → ∀ graph, Graph.build id strictness steps = .ok graph →
        ∃ copy, Graph.build other second steps = .ok copy ∧
          copy.diagnostics.items.Sublist graph.diagnostics.items) :=
  ⟨fun _ _ h hc => sameContent_of_build h hc, fun hs _ h => build_of_atMost h hs⟩

/-- The schema with repetitions is the same under a setting that drops what the lenient one warns
of. -/
theorem build_strictness_repeatedSteps :
    ∃ graph copy, Graph.build ⟨0⟩ .lenient repeatedSteps = .ok graph ∧
      Graph.build ⟨1⟩ ⟨.ignore, .warn⟩ repeatedSteps = .ok copy ∧
      graph.diagnostics.items ≠ [] ∧ graph.SameContent copy ∧
      copy.diagnostics.items.Sublist graph.diagnostics.items := by
  obtain ⟨graph, h, hne⟩ : ∃ graph, Graph.build ⟨0⟩ .lenient repeatedSteps = .ok graph ∧
      graph.diagnostics.items ≠ [] := ⟨_, rfl, by decide⟩
  have hlaw := build_strictness ⟨0⟩ ⟨1⟩ .lenient ⟨.ignore, .warn⟩ repeatedSteps
  obtain ⟨copy, hc, hsub⟩ := hlaw.2 (by decide) graph h
  exact ⟨graph, copy, h, hc, hne, hlaw.1 graph copy h hc, hsub⟩

end QuerySurface.Schema
