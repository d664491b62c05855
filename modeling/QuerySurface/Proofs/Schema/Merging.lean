import QuerySurface.Proofs.Schema.Malformed
import QuerySurface.Proofs.Schema.Relocation

/-!
# Merging documents

The types of several documents are declared one after the other, and a root that is set again is
set anew. So it makes no difference how a schema is split into documents: all of them yield what
the one document yields that lists every type and sets each root as it was set last. The scalars
that need no declaration come first, as far as no document declares them.
-/

namespace QuerySurface.Schema

open Catalog (surviving names)

/-! ## What is looked at -/

/-- The document that lists the types of all documents and sets each root as it was set last. -/
def Document.merged (documents : List Document) : Document where
  roots :=
    { query := (documents.filterMap (·.roots.query)).getLast?
      mutation := (documents.filterMap (·.roots.mutation)).getLast?
      subscription := (documents.filterMap (·.roots.subscription)).getLast? }
  types := documents.flatMap Document.types

/-- The names of all types of documents, repetitions included. -/
def typeNames (documents : List Document) : List String :=
  (documents.flatMap Document.types).map TypeDocument.name

/-- The scalars that need no declaration and have none, in their order. -/
def undeclaredScalars (documents : List Document) : List String :=
  builtinScalars.filter fun scalar => scalar ∉ typeNames documents

/-- The diagnostics that come with a graph or with the failure to build it. -/
def diagnosticsOf : Outcome Graph → List Diagnostic
  | .ok graph => graph.diagnostics.items
  | .error (.diagnostics found) => found.items
  | .error _ => []

/-! ## Steps that declare the same -/

/-- Two lists of steps declare the same nodes in the same order, and name the same roots. -/
structure SameDeclarations (steps others : List SchemaStep) : Prop where
  /-- The nodes are. -/
  declarations : declarations steps = Schema.declarations others
  /-- The query root is. -/
  query : namedQuery steps = namedQuery others
  /-- The mutation root is. -/
  mutation : namedMutation steps = namedMutation others
  /-- The subscription root is. -/
  subscription : namedSubscription steps = namedSubscription others

namespace SameDeclarations

variable {steps others : List SchemaStep} (h : SameDeclarations steps others)
include h

/-- The problems are the same, in the same order. -/
theorem problems_eq : problems steps = problems others := by
  have hkind : declaredKind? steps = declaredKind? others := by
    funext name
    rw [declaredKind?, h.declarations, declaredKind?]
  rw [problems, duplicates, h.declarations, unresolvedNames_congr hkind, missingTypes_congr hkind,
    wrongRoot_congr hkind, h.query, h.mutation, h.subscription]
  rfl

/-- The graphs are the same. -/
theorem declaredGraph_eq (id : GraphId) (found : List Diagnostic) :
    declaredGraph id steps found = declaredGraph id others found := by
  simp only [declaredGraph, declaredNodes, rootNamed, h.declarations, h.query, h.mutation,
    h.subscription]

/-- Builds have the same outcome, but for the identity of the graph. -/
theorem build_eq (id other : GraphId) (strictness : Strictness) :
    Graph.build other strictness others =
      (Graph.build id strictness steps).map (Graph.renamed other) := by
  rw [Schema.build_eq, Schema.build_eq, ← h.problems_eq]
  split
  · rfl
  · rw [Except.map, renamed_declaredGraph, h.declaredGraph_eq]

end SameDeclarations

/-! ## Steps of documents -/

/-- The declaration of a type. -/
def TypeDocument.declaration (directives : Directives) (type : TypeDocument) : NodeDeclaration :=
  ⟨type.name, type.kind, (type.replay directives).steps⟩

/-- The declaration of a scalar. -/
def scalarDeclaration (name : String) : NodeDeclaration :=
  ⟨name, .scalar, []⟩

/-- Scalars are declared if no type has their name. -/
theorem builtinSteps_eq (documents : List Document) :
    builtinSteps documents = (undeclaredScalars documents).map (.node · .scalar []) := by
  have hdeclared : ∀ scalar, (!documents.any fun document =>
      document.types.any (·.name == scalar)) = decide (scalar ∉ typeNames documents) := by
    intro scalar
    rw [Bool.eq_iff_iff, decide_eq_true_iff]
    simp only [typeNames, Bool.not_eq_true', List.any_eq_false, beq_iff_eq, List.any_eq_true,
      List.mem_map, List.mem_flatMap]
    grind
  simp only [builtinSteps, undeclaredScalars, hdeclared]

/-- The steps of roots declare no node, and name each root that is set. -/
theorem RootsDocument.filterMap_steps (roots : RootsDocument) :
    roots.steps.filterMap SchemaStep.node? = [] ∧
      roots.steps.filterMap SchemaStep.query? = roots.query.toList ∧
      roots.steps.filterMap SchemaStep.mutation? = roots.mutation.toList ∧
      roots.steps.filterMap SchemaStep.subscription? = roots.subscription.toList := by
  obtain ⟨query, mutation, subscription⟩ := roots
  cases query <;> cases mutation <;> cases subscription <;> exact ⟨rfl, rfl, rfl, rfl⟩

/-- The declarations of documents: first the scalars that are not declared, then the types. -/
theorem declarations_documentSteps (directives : Directives) (documents : List Document) :
    declarations (documentSteps directives documents) =
      (undeclaredScalars documents).map scalarDeclaration ++
        (documents.flatMap Document.types).map (TypeDocument.declaration directives) := by
  have hdocument : ∀ document : Document,
      (document.steps directives).filterMap SchemaStep.node? =
        document.types.map (TypeDocument.declaration directives) := by
    intro document
    rw [Document.steps, List.filterMap_append, document.roots.filterMap_steps.1,
      List.append_nil, List.filterMap_map]
    exact congrFun List.filterMap_eq_map' _
  rw [declarations, documentSteps, builtinSteps_eq, List.filterMap_append, List.filterMap_flatMap,
    List.filterMap_map, List.map_flatMap]
  simp only [hdocument]
  congr 1
  exact congrFun List.filterMap_eq_map' _

/-- What the steps of documents name, for one of the roots. -/
theorem filterMap_documentSteps (directives : Directives) (documents : List Document)
    (select : SchemaStep → Option String) (root : RootsDocument → Option String)
    (hn : ∀ name kind body, select (.node name kind body) = none)
    (hr : ∀ roots : RootsDocument, roots.steps.filterMap select = (root roots).toList) :
    (documentSteps directives documents).filterMap select =
      documents.filterMap fun document => root document.roots := by
  have hdocument : ∀ document : Document,
      (document.steps directives).filterMap select = (root document.roots).toList := by
    intro document
    rw [Document.steps, List.filterMap_append, List.filterMap_map, hr]
    simp [hn]
  rw [documentSteps, builtinSteps_eq, List.filterMap_append, List.filterMap_map,
    List.filterMap_flatMap]
  simp [hn, hdocument, List.filterMap_eq_flatMap_toList]

/-- The roots that documents name are those of the merged one. -/
theorem named_documentSteps (directives : Directives) (documents : List Document) :
    namedQuery (documentSteps directives documents) = (Document.merged documents).roots.query ∧
      namedMutation (documentSteps directives documents) =
        (Document.merged documents).roots.mutation ∧
      namedSubscription (documentSteps directives documents) =
        (Document.merged documents).roots.subscription := by
  have hquery := filterMap_documentSteps directives documents SchemaStep.query?
    RootsDocument.query (fun _ _ _ => rfl) fun roots => roots.filterMap_steps.2.1
  have hmutation := filterMap_documentSteps directives documents SchemaStep.mutation?
    RootsDocument.mutation (fun _ _ _ => rfl) fun roots => roots.filterMap_steps.2.2.1
  have hsubscription := filterMap_documentSteps directives documents SchemaStep.subscription?
    RootsDocument.subscription (fun _ _ _ => rfl) fun roots => roots.filterMap_steps.2.2.2
  rw [namedQuery, namedMutation, namedSubscription, hquery, hmutation, hsubscription]
  exact ⟨rfl, rfl, rfl⟩

/-- One document merged is itself. -/
theorem Document.merged_singleton (document : Document) : merged [document] = document := by
  obtain ⟨⟨query, mutation, subscription⟩, types⟩ := document
  cases query <;> cases mutation <;> cases subscription <;> simp [merged]

/-- The merged document declares the types of all documents. -/
theorem typeNames_merged (documents : List Document) :
    typeNames [.merged documents] = typeNames documents := by
  simp [typeNames, Document.merged]

/-- Documents declare the same as the merged one. -/
theorem sameDeclarations_merged (directives : Directives) (documents : List Document) :
    SameDeclarations (documentSteps directives documents)
      (documentSteps directives [.merged documents]) := by
  obtain ⟨hq, hm, hs⟩ := named_documentSteps directives documents
  obtain ⟨hqm, hmm, hsm⟩ := named_documentSteps directives [.merged documents]
  rw [Document.merged_singleton] at hqm hmm hsm
  refine ⟨?_, hq.trans hqm.symm, hm.trans hmm.symm, hs.trans hsm.symm⟩
  rw [declarations_documentSteps, declarations_documentSteps, undeclaredScalars, undeclaredScalars,
    typeNames_merged]
  simp [Document.merged]

/-- The first malformed notation is that of the merged document. -/
theorem firstMalformed_merged (directives : Directives) (documents : List Document) :
    firstMalformed directives [.merged documents] = firstMalformed directives documents := by
  simp [firstMalformed, Document.merged]

/-- The merged document yields what all documents yield. -/
theorem ofDocuments_merged (id other : GraphId) (settings : LoadSettings)
    (documents : List Document) :
    Graph.ofDocuments other settings [.merged documents] =
      (Graph.ofDocuments id settings documents).map (Graph.renamed other) := by
  rw [Graph.ofDocuments, firstMalformed_merged, Graph.ofDocuments]
  cases firstMalformed settings.directives documents with
  | some failure => rfl
  | none => exact (sameDeclarations_merged settings.directives documents).build_eq id other _

/-! ## Scalars that need no declaration -/

/-- The names of scalars that are declared. -/
theorem names_map_scalarDeclaration (scalars : List String) :
    names (scalars.map scalarDeclaration) = scalars :=
  (List.map_map).trans (List.map_id _)

/-- The names of types that are declared. -/
theorem names_map_declaration (directives : Directives) (types : List TypeDocument) :
    names (types.map (TypeDocument.declaration directives)) = types.map TypeDocument.name :=
  List.map_map

/-- The names that documents declare. -/
theorem names_declarations_documentSteps (directives : Directives) (documents : List Document) :
    names (declarations (documentSteps directives documents)) =
      undeclaredScalars documents ++ typeNames documents := by
  rw [declarations_documentSteps, Catalog.names_append, names_map_scalarDeclaration,
    names_map_declaration, typeNames]

/-- No scalar comes twice. -/
theorem nodup_undeclaredScalars (documents : List Document) :
    (undeclaredScalars documents).Nodup :=
  List.Nodup.filter _ (by decide)

/-- The scalars that come first are not declared. -/
theorem not_mem_typeNames {documents : List Document} {scalar : String}
    (h : scalar ∈ undeclaredScalars documents) : scalar ∉ typeNames documents := by
  simpa using (List.mem_filter.mp h).2

/-- A name that documents declare twice, the scalars that need no declaration included, stands in
them twice. -/
theorem two_le_count_typeNames {documents : List Document} {name : String}
    (h : 2 ≤ (undeclaredScalars documents ++ typeNames documents).count name) :
    2 ≤ (typeNames documents).count name := by
  rw [List.count_append] at h
  -- A scalar that comes first is no type, so it would stand there once in all.
  by_cases hm : name ∈ undeclaredScalars documents
  · have hfirst := List.nodup_iff_count_le_one.mp (nodup_undeclaredScalars documents) name
    have htypes := List.count_eq_zero_of_not_mem (not_mem_typeNames hm)
    omega
  · rw [List.count_eq_zero_of_not_mem hm] at h
    omega

/-- What survives of the declarations of documents: the scalars in front, and of the types what
survives of them. -/
theorem surviving_declarations_documentSteps (directives : Directives)
    (documents : List Document) :
    surviving (declarations (documentSteps directives documents)) =
      (undeclaredScalars documents).map scalarDeclaration ++
        surviving ((documents.flatMap Document.types).map
          (TypeDocument.declaration directives)) := by
  rw [declarations_documentSteps]
  apply Catalog.surviving_append
  · rw [names_map_scalarDeclaration]
    exact nodup_undeclaredScalars documents
  · intro name hm
    rw [names_map_scalarDeclaration] at hm
    rw [names_map_declaration]
    exact not_mem_typeNames hm

/-- The nodes of a graph of documents: first the scalars that no document declares, in their order
and without anything in them; then the types, each name where it is first declared. -/
theorem nodes_of_ofDocuments {id : GraphId} {settings : LoadSettings} {documents : List Document}
    {graph : Graph} (h : Graph.ofDocuments id settings documents = .ok graph) :
    ∃ rest, graph.nodes =
        (undeclaredScalars documents).mapIdx (fun slot name => .blank id slot name .scalar) ++
          rest ∧
      names rest = (typeNames documents).eraseDups := by
  rw [Graph.ofDocuments] at h
  split at h
  · cases h
  · have hnodes := nodes_of_build h
    rw [declaredNodes, surviving_declarations_documentSteps, List.mapIdx_append,
      Catalog.mapIdx_map] at hnodes
    refine ⟨_, hnodes, ?_⟩
    rw [Catalog.names_mapIdx (fun place => NodeDeclaration.node id (place + _)) fun _ _ => rfl,
      Catalog.names_surviving, names_map_declaration, typeNames]

/-! ## Names that are declared twice -/

/-- What is found along a list is found at one of its entries, in view of those in front. -/
theorem exists_of_mem_foundAlong {α : Type} {found : List α → α → List Problem}
    {before entries : List α} {problem : Problem} (h : problem ∈ foundAlong found before entries) :
    ∃ front entry back, entries = front ++ entry :: back ∧
      problem ∈ found (before ++ front) entry := by
  induction entries generalizing before with
  | nil => simp [foundAlong] at h
  | cons head rest ih =>
    rcases List.mem_append.mp h with hm | hm
    · exact ⟨[], head, rest, rfl, by rwa [List.append_nil]⟩
    · obtain ⟨front, entry, back, he, hp⟩ := ih hm
      exact ⟨head :: front, entry, back, by rw [he, List.cons_append], by simpa using hp⟩

/-- The problem of a taken name. -/
theorem eq_of_mem_takenName {taken : List String} {name node what : String} {code : Code}
    {problem : Problem} (h : problem ∈ takenName taken name node code what) :
    name ∈ taken ∧ problem = .duplicate node code what := by
  unfold takenName at h
  split at h
  · exact ⟨‹_›, List.mem_singleton.mp h⟩
  · cases h

/-- Names that are repeated inside a node are not names of nodes. -/
theorem NodeDeclaration.code_ne_of_mem_duplicates {declared : NodeDeclaration} {problem : Problem}
    (h : problem ∈ declared.duplicates) : problem.code ≠ .duplicateNode := by
  obtain ⟨front, step, back, _, hp⟩ := exists_of_mem_foundAlong h
  cases step with
  | implements interface => cases hp
  | member object => cases hp
  | comment text => cases hp
  | enumValue name comments =>
    rw [(eq_of_mem_takenName hp).2]
    exact Code.noConfusion
  | field name type required hasDefault body =>
    rcases List.mem_append.mp hp with hp | hp
    · rw [(eq_of_mem_takenName hp).2]
      exact Code.noConfusion
    · obtain ⟨_, argument, _, _, ha⟩ := exists_of_mem_foundAlong hp
      rw [(eq_of_mem_takenName ha).2]
      exact Code.noConfusion

/-- A node that is reported as declared before is declared twice. -/
theorem two_le_count_of_mem_problems {steps : List SchemaStep} {problem : Problem}
    (hm : problem ∈ problems steps) (hc : problem.code = .duplicateNode) :
    2 ≤ (names (declarations steps)).count problem.node := by
  -- All problems but those of taken names have another code.
  have hroot : ∀ role kind root, problem ∉ wrongRoot steps role kind root := by
    intro role kind root hw
    unfold wrongRoot at hw
    split at hw
    · split at hw
      · cases hw
      · rw [List.mem_singleton.mp hw] at hc
        cases hc
    · cases hw
  have hnames : ∀ declared, problem ∉ unresolvedNames steps declared := by
    intro declared hu
    rcases List.mem_append.mp hu with hu | hu
    · obtain ⟨_, _, rfl⟩ := List.mem_map.mp hu
      cases hc
    · obtain ⟨_, _, rfl⟩ := List.mem_map.mp hu
      cases hc
  have hmissing : ∀ node owner type, problem ∉ missingType steps node owner type := by
    intro node owner type hu
    unfold missingType at hu
    split at hu
    · rw [List.mem_singleton.mp hu] at hc
      cases hc
    · cases hu
  have htypes : ∀ node field, problem ∉ missingTypes steps node field := by
    intro node field hu
    rcases List.mem_append.mp hu with hu | hu
    · exact hmissing _ _ _ hu
    · obtain ⟨_, _, hu⟩ := List.mem_flatMap.mp hu
      exact hmissing _ _ _ hu
  have hduplicates : problem ∈ duplicates steps := by
    simp only [problems, List.mem_append, List.mem_flatMap] at hm
    rcases hm with ((((hm | ⟨_, _, hm⟩) | ⟨_, _, _, _, hm⟩) | hm) | hm) | hm
    · exact hm
    · exact absurd hm (hnames _)
    · exact absurd hm (htypes _ _)
    · exact absurd hm (hroot _ _ _)
    · exact absurd hm (hroot _ _ _)
    · exact absurd hm (hroot _ _ _)
  obtain ⟨front, declared, back, he, hp⟩ := exists_of_mem_foundAlong hduplicates
  rcases List.mem_append.mp hp with hp | hp
  · obtain ⟨htaken, rfl⟩ := eq_of_mem_takenName hp
    have hfront : 1 ≤ (names front).count declared.name := List.count_pos_iff.mpr htaken
    rw [he, Catalog.names_append, Catalog.names_cons, List.count_append]
    simp [Problem.duplicate, Named.name]
    omega
  · exact absurd hc (NodeDeclaration.code_ne_of_mem_duplicates hp)

/-! ## The laws of loading -/

/-- The diagnostics of a build are what is reported, whether it fails or not. -/
theorem diagnosticsOf_build (id : GraphId) (strictness : Strictness) (steps : List SchemaStep) :
    diagnosticsOf (Graph.build id strictness steps) = reported strictness (problems steps) := by
  rw [build_eq]
  split <;> rfl

/-- A type that documents are said to declare twice is declared twice. -/
theorem two_le_count_of_mem_diagnosticsOf {id : GraphId} {settings : LoadSettings}
    {documents : List Document} {item : Diagnostic}
    (hm : item ∈ diagnosticsOf (Graph.ofDocuments id settings documents))
    (hc : item.code = .duplicateNode) : 2 ≤ (typeNames documents).count item.node := by
  rw [Graph.ofDocuments] at hm
  split at hm
  · rename_i failure hf
    obtain ⟨node, message, rfl⟩ := failure_of_firstMalformed hf
    cases hm
  · rw [diagnosticsOf_build] at hm
    obtain ⟨problem, hp, hd⟩ := List.mem_filterMap.mp hm
    obtain ⟨severity, _, rfl⟩ := Option.map_eq_some_iff.mp hd
    have htwice := two_le_count_of_mem_problems hp hc
    rw [names_declarations_documentSteps] at htwice
    exact two_le_count_typeNames htwice

/-- How a schema is split into documents makes no difference. Documents yield what the one document
yields that lists all types, in order, and sets each root as it was set last: the same graph, but
for its identity, with the same diagnostics, or the same failure. A graph of documents begins
with the scalars that need no declaration and have none, in their order, and goes on with the
declared types, each where it is first declared. Nothing is reported as declared twice, with a
graph or with a failure, that does not stand twice in the documents. -/
theorem ofDocuments_split (id other : GraphId) (settings : LoadSettings)
    (documents : List Document) :
    Graph.ofDocuments other settings [.merged documents] =
        (Graph.ofDocuments id settings documents).map (Graph.renamed other) ∧
      (∀ graph, Graph.ofDocuments id settings documents = .ok graph →
        ∃ rest, graph.nodes = (undeclaredScalars documents).mapIdx
            (fun slot name => .blank id slot name .scalar) ++ rest ∧
          names rest = (typeNames documents).eraseDups) ∧
      ∀ item ∈ diagnosticsOf (Graph.ofDocuments id settings documents),
        item.code = .duplicateNode → 2 ≤ (typeNames documents).count item.node := by
  refine ⟨ofDocuments_merged id other settings documents, ?_, ?_⟩
  · intro graph h
    exact nodes_of_ofDocuments h
  · intro item hm hc
    exact two_le_count_of_mem_diagnosticsOf hm hc

/-- Two documents, each with types of its own, one of them with a scalar of the usual ones and with
a type of the other. -/
def twoDocuments : List Document :=
  [ { roots := ⟨some "Old", none, none⟩
      types :=
        [ ⟨"Int", .scalar, ["counted"], [], [], [], []⟩,
          ⟨"Root", .query, [], [], [], [], [⟨"size", "Int", [], [], []⟩]⟩ ] },
    { roots := ⟨some "Root", none, none⟩
      types :=
        [⟨"Root", .query, [], [], [], [], [⟨"sizes", "[Int!]", [], [], []⟩]⟩] } ]

/-- The two documents yield a graph in which the scalar of the first stands behind those that are
not declared, and only the type that both have is reported. -/
theorem ofDocuments_split_twoDocuments :
    ∃ graph, Graph.ofDocuments ⟨0⟩ .usual twoDocuments = .ok graph ∧
      Graph.ofDocuments ⟨1⟩ .usual [.merged twoDocuments] = .ok (graph.renamed ⟨1⟩) ∧
      names graph.nodes = ["ID", "String", "Float", "Boolean", "Int", "Root"] ∧
      ∀ item ∈ graph.diagnostics.items, item.code = .duplicateNode → item.node ≠ "Int" := by
  obtain ⟨graph, h⟩ : ∃ graph, Graph.ofDocuments ⟨0⟩ .usual twoDocuments = .ok graph := ⟨_, rfl⟩
  obtain ⟨hmerged, hnodes, htwice⟩ := ofDocuments_split ⟨0⟩ ⟨1⟩ .usual twoDocuments
  obtain ⟨rest, hn, hr⟩ := hnodes graph h
  rw [h] at hmerged htwice
  refine ⟨graph, h, hmerged, ?_, ?_⟩
  · rw [hn, Catalog.names_append, hr]
    decide
  · intro item hm hc he
    have hcount := htwice item hm hc
    rw [he] at hcount
    exact absurd hcount (by decide)

end QuerySurface.Schema
