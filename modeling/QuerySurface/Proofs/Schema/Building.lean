import QuerySurface.Proofs.Schema.Problems

/-!
# Drafts hold what declarations say

Filling a field, a node and a draft step by step comes to the same as reading all steps at once:
after any steps the draft holds the declared nodes and the problems of taken names. Freezing
adds the other problems, so a build is decided by the steps alone, and a graph that is built
holds what survives of the declarations.
-/

namespace QuerySurface.Schema

open Catalog (surviving last? names)

/-- What one more entry selects comes last. -/
theorem filterMap_concat {α β : Type} (select : α → Option β) (entries : List α) (entry : α) :
    (entries ++ [entry]).filterMap select = entries.filterMap select ++ (select entry).toList := by
  rw [List.filterMap_append]
  cases h : select entry <;> simp [h]

/-- What one more step sets counts, else what was set before. -/
theorem getLastD_append_toList {α : Type} (entries : List α) (entry : Option α) (default : α) :
    (entries ++ entry.toList).getLastD default = entry.getD (entries.getLastD default) := by
  cases entry <;> simp

/-! ## Fields -/

namespace FieldDeclaration

/-- A declared field with one more step. -/
def extend (declared : FieldDeclaration) (step : FieldStep) : FieldDeclaration :=
  { declared with body := declared.body ++ [step] }

/-- One more step may declare one more argument. -/
theorem arguments_extend (declared : FieldDeclaration) (step : FieldStep) :
    (declared.extend step).arguments = declared.arguments ++ step.argument?.toList :=
  filterMap_concat _ _ _

/-- What one more step adds to a field. -/
theorem field_extend (declared : FieldDeclaration) (id : FieldId) (owner : String)
    (step : FieldStep) :
    (declared.extend step).field id owner =
      { declared.field id owner with
        primaryKey := step.primaryKey?.getD declared.primaryKey
        selection := step.selection?.getD declared.selection
        resolve := step.resolve?.getD declared.resolve
        comments := declared.comments ++ step.comment?.toList
        arguments :=
          (surviving (declared.arguments ++ step.argument?.toList)).map
            (ArgumentDeclaration.argument id) } := by
  simp only [field, arguments_extend]
  simp only [extend, comments, primaryKey, selection, resolve, filterMap_concat,
    getLastD_append_toList]

/-- The problems of one more step in a field. -/
theorem duplicates_extend (declared : FieldDeclaration) (owner : String) (step : FieldStep) :
    (declared.extend step).duplicates owner =
      declared.duplicates owner ++ step.argument?.toList.flatMap fun argument =>
        takenName (names declared.arguments) argument.name owner .duplicateArgument
          (argumentPath declared.name argument.name) := by
  unfold duplicates
  rw [arguments_extend]
  cases step.argument? with
  | none => simp [extend]
  | some argument => simp [extend, foundAlong_concat]

/-- The names of stored arguments are those of the declared ones. -/
theorem mem_names_arguments (id : FieldId) (owner : String) (declared : FieldDeclaration)
    (name : String) :
    name ∈ names (declared.field id owner).arguments ↔ name ∈ names declared.arguments := by
  rw [(declared.describes_field id owner).arguments.names_eq, List.mem_eraseDups]

end FieldDeclaration

/-- One step takes a field from what its declaration says to what one step more says. -/
theorem FieldStep.apply_field (strictness : Strictness) (id : FieldId) (owner : String)
    (declared : FieldDeclaration) (diagnostics : Diagnostics) (step : FieldStep) :
    FieldStep.apply strictness
        ⟨declared.field id owner,
          diagnostics.withProblems strictness (declared.duplicates owner)⟩ step =
      ⟨(declared.extend step).field id owner,
        diagnostics.withProblems strictness ((declared.extend step).duplicates owner)⟩ := by
  rw [FieldDeclaration.field_extend, FieldDeclaration.duplicates_extend,
    Diagnostics.withProblems_append]
  cases step with
  | argument name type hasDefault comments =>
    have hnames := takenName_congr (declared.mem_names_arguments id owner)
    have hput : Catalog.put ⟨id, name, type, hasDefault, comments⟩
        ((surviving declared.arguments).map (ArgumentDeclaration.argument id)) =
        (surviving (declared.arguments ++ [⟨name, type, hasDefault, comments⟩])).map
          (ArgumentDeclaration.argument id) := by
      rw [Catalog.surviving_concat]
      exact Catalog.put_map (ArgumentDeclaration.argument id) (fun _ => rfl)
        ⟨name, type, hasDefault, comments⟩ (surviving declared.arguments)
    simp only [FieldStep.apply, Diagnostics.duplicateIf_eq, hnames]
    simp [FieldDeclaration.field, argument?, comment?, primaryKey?, selection?, resolve?, hput]
  | _ =>
    simp [FieldStep.apply, FieldDeclaration.field, argument?, comment?, primaryKey?, selection?,
      resolve?]

/-- Filling a field step by step yields the declared field and the problems of its arguments. -/
theorem FieldStep.foldl_apply (strictness : Strictness) (id : FieldId) (owner : String)
    (declared : FieldDeclaration) (diagnostics : Diagnostics) :
    declared.body.foldl (FieldStep.apply strictness)
        ⟨Field.blank id owner declared.name declared.type declared.required declared.hasDefault,
          diagnostics⟩ =
      ⟨declared.field id owner,
        diagnostics.withProblems strictness (declared.duplicates owner)⟩ := by
  obtain ⟨name, type, required, hasDefault, body⟩ := declared
  induction body using List.reverseRecOn with
  | nil =>
    simp only [FieldDeclaration.duplicates, FieldDeclaration.arguments, List.filterMap_nil,
      foundAlong, Diagnostics.withProblems_nil]
    rfl
  | append_singleton front step ih =>
    rw [List.foldl_append, ih]
    exact FieldStep.apply_field strictness id owner ⟨name, type, required, hasDefault, front⟩
      diagnostics step

/-! ## Nodes -/

namespace NodeDeclaration

/-- A declared node with one more step. -/
def extend (declared : NodeDeclaration) (step : NodeStep) : NodeDeclaration :=
  { declared with body := declared.body ++ [step] }

/-- What one more step adds to a node. -/
theorem node_extend (declared : NodeDeclaration) (graph : GraphId) (slot : Nat) (step : NodeStep) :
    (declared.extend step).node graph slot =
      { declared.node graph slot with
        interfaces := declared.interfaces ++ step.interface?.toList
        members := declared.members ++ step.member?.toList
        comments := declared.comments ++ step.comment?.toList
        values := surviving (declared.values ++ step.value?.toList)
        fields :=
          (surviving (declared.fields ++ step.field?.toList)).mapIdx
            (fieldAt graph slot declared.name) } := by
  simp only [node, extend, interfaces, members, comments, values, fields, filterMap_concat]

/-- The problems of one more step in a node. -/
theorem duplicates_extend (declared : NodeDeclaration) (step : NodeStep) :
    (declared.extend step).duplicates =
      declared.duplicates ++ step.duplicates declared.name declared.body := by
  simp only [duplicates, extend, foundAlong_concat, List.nil_append]

/-- The names of stored enum values are those of the declared ones. -/
theorem mem_names_values (graph : GraphId) (slot : Nat) (declared : NodeDeclaration)
    (name : String) :
    name ∈ names (declared.node graph slot).values ↔ name ∈ names declared.values := by
  rw [(declared.describes_node graph slot).values.names_eq, List.mem_eraseDups]

/-- The names of stored fields are those of the declared ones. -/
theorem mem_names_fields (graph : GraphId) (slot : Nat) (declared : NodeDeclaration)
    (name : String) :
    name ∈ names (declared.node graph slot).fields ↔ name ∈ names declared.fields := by
  rw [(declared.describes_node graph slot).fields.names_eq, List.mem_eraseDups]

/-- A field is filled at the place where its name survives. -/
theorem slot?_fields (graph : GraphId) (slot : Nat) (declared : NodeDeclaration) (name : String) :
    (Catalog.slot? name (declared.node graph slot).fields).getD
        (declared.node graph slot).fields.length =
      (Catalog.slot? name (surviving declared.fields)).getD (surviving declared.fields).length := by
  rw [Catalog.slot?_eq_names, names_fields, ← Catalog.slot?_eq_names]
  simp only [node, List.length_mapIdx]

end NodeDeclaration

/-- One step takes a node from what its declaration says to what one step more says. -/
theorem NodeStep.apply_node (strictness : Strictness) (graph : GraphId) (slot : Nat)
    (declared : NodeDeclaration) (diagnostics : Diagnostics) (step : NodeStep) :
    NodeStep.apply strictness
        ⟨declared.node graph slot, diagnostics.withProblems strictness declared.duplicates⟩ step =
      ⟨(declared.extend step).node graph slot,
        diagnostics.withProblems strictness (declared.extend step).duplicates⟩ := by
  rw [NodeDeclaration.node_extend, NodeDeclaration.duplicates_extend,
    Diagnostics.withProblems_append]
  cases step with
  | enumValue name comments =>
    have hnames := takenName_congr (declared.mem_names_values graph slot)
    simp only [NodeStep.apply, NodeStep.duplicates, Diagnostics.duplicateIf_eq, hnames]
    simp [NodeDeclaration.node, interface?, member?, comment?, value?, field?,
      Catalog.surviving_concat]
    rfl
  | field name type required hasDefault body =>
    have hnames := takenName_congr (declared.mem_names_fields graph slot)
    have hput := Catalog.put_mapIdx (NodeDeclaration.fieldAt graph slot declared.name)
      (fun _ _ => rfl) ⟨name, type, required, hasDefault, body⟩ (surviving declared.fields)
    have hfill := FieldStep.foldl_apply strictness
      ⟨graph, slot, (Catalog.slot? name (surviving declared.fields)).getD
        (surviving declared.fields).length⟩
      declared.name ⟨name, type, required, hasDefault, body⟩
    dsimp only at hfill
    simp only [NodeStep.apply, Diagnostics.duplicateIf_eq, hnames, NodeDeclaration.slot?_fields]
    dsimp only [NodeDeclaration.node]
    rw [hfill]
    simp only [interface?, member?, comment?, value?, field?, Option.toList_none,
      Option.toList_some, List.append_nil, Catalog.surviving_concat, NodeStep.duplicates,
      Diagnostics.withProblems_append, ← hput]
    rfl
  | _ =>
    simp [NodeStep.apply, NodeStep.duplicates, NodeDeclaration.node, interface?, member?, comment?,
      value?, field?]

/-- Filling a node step by step yields the declared node and the problems of its names. -/
theorem NodeStep.foldl_apply (strictness : Strictness) (graph : GraphId) (slot : Nat)
    (declared : NodeDeclaration) (diagnostics : Diagnostics) :
    declared.body.foldl (NodeStep.apply strictness)
        ⟨Node.blank graph slot declared.name declared.kind, diagnostics⟩ =
      ⟨declared.node graph slot, diagnostics.withProblems strictness declared.duplicates⟩ := by
  obtain ⟨name, kind, body⟩ := declared
  induction body using List.reverseRecOn with
  | nil =>
    simp only [NodeDeclaration.duplicates, foundAlong, Diagnostics.withProblems_nil]
    rfl
  | append_singleton front step ih =>
    rw [List.foldl_append, ih]
    exact NodeStep.apply_node strictness graph slot ⟨name, kind, front⟩ diagnostics step

/-! ## Drafts -/

/-- The draft that some steps describe. -/
def declaredDraft (id : GraphId) (strictness : Strictness) (steps : List SchemaStep) : Draft :=
  { id := id
    strictness := strictness
    nodes := declaredNodes id steps
    query := namedQuery steps
    mutation := namedMutation steps
    subscription := namedSubscription steps
    diagnostics := Diagnostics.empty.withProblems strictness (duplicates steps) }

/-- The names of declared nodes are those that were declared. -/
theorem mem_names_declaredNodes (id : GraphId) (steps : List SchemaStep) (name : String) :
    name ∈ names (declaredNodes id steps) ↔ name ∈ names (declarations steps) := by
  rw [names_declaredNodes, Catalog.names_surviving, List.mem_eraseDups]

/-- One more declaration of a node stands behind the others. -/
theorem declarations_concat (steps : List SchemaStep) (step : SchemaStep) :
    declarations (steps ++ [step]) = declarations steps ++ step.node?.toList :=
  filterMap_concat _ _ _

/-- The problems of taken names of one more step. -/
theorem duplicates_concat (steps : List SchemaStep) (step : SchemaStep) :
    duplicates (steps ++ [step]) =
      duplicates steps ++ step.node?.toList.flatMap fun declared =>
        takenName (names (declarations steps)) declared.name declared.name .duplicateNode
          declared.name ++ declared.duplicates := by
  unfold duplicates
  rw [declarations_concat]
  cases step.node? with
  | none => simp
  | some declared => simp [foundAlong_concat]

/-- One step takes a draft from what some steps describe to what one step more describes. -/
theorem Draft.apply_declaredDraft (id : GraphId) (strictness : Strictness)
    (steps : List SchemaStep) (step : SchemaStep) :
    (declaredDraft id strictness steps).apply step =
      declaredDraft id strictness (steps ++ [step]) := by
  have hlast : ∀ select : SchemaStep → Option String,
      ((steps ++ [step]).filterMap select).getLast? =
        (select step).or (steps.filterMap select).getLast? := by
    intro select
    rw [filterMap_concat]
    cases select step <;> simp
  have hnodes : declaredNodes id (steps ++ [step]) =
      (surviving (declarations steps ++ step.node?.toList)).mapIdx (NodeDeclaration.node id) := by
    rw [declaredNodes, declarations_concat]
  simp only [declaredDraft, namedQuery, namedMutation, namedSubscription, hlast, hnodes,
    duplicates_concat]
  cases step with
  | node name kind body =>
    have hnames := takenName_congr (mem_names_declaredNodes id steps)
    have hslot : (Catalog.slot? name (declaredNodes id steps)).getD
        (declaredNodes id steps).length =
        (Catalog.slot? name (surviving (declarations steps))).getD
          (surviving (declarations steps)).length := by
      rw [Catalog.slot?_eq_names, names_declaredNodes, ← Catalog.slot?_eq_names]
      simp only [declaredNodes, List.length_mapIdx]
    have hput := Catalog.put_mapIdx (NodeDeclaration.node id) (fun _ _ => rfl)
      ⟨name, kind, body⟩ (surviving (declarations steps))
    have hfill := NodeStep.foldl_apply strictness id
      ((Catalog.slot? name (surviving (declarations steps))).getD
        (surviving (declarations steps)).length) ⟨name, kind, body⟩
    dsimp only at hfill
    simp only [Draft.apply, Draft.addNode, Draft.has, Diagnostics.duplicateIf_eq, hnames, hslot]
    rw [hfill]
    simp only [SchemaStep.node?, SchemaStep.query?, SchemaStep.mutation?,
      SchemaStep.subscription?, Option.toList_some, Option.none_or, Catalog.surviving_concat,
      ← hput, List.flatMap_cons, List.flatMap_nil, List.append_nil,
      Diagnostics.withProblems_append]
    rfl
  | _ =>
    simp [Draft.apply, SchemaStep.node?, SchemaStep.query?, SchemaStep.mutation?,
      SchemaStep.subscription?, declaredNodes]

/-- Taking steps in one after the other yields the draft that they describe. -/
theorem Draft.applyAll_empty (id : GraphId) (strictness : Strictness) (steps : List SchemaStep) :
    (Draft.empty id strictness).applyAll steps = declaredDraft id strictness steps := by
  induction steps using List.reverseRecOn with
  | nil =>
    simp only [declaredDraft, duplicates, declarations, List.filterMap_nil, foundAlong,
      Diagnostics.withProblems_nil]
    rfl
  | append_singleton front step ih =>
    have hstep : (Draft.empty id strictness).applyAll (front ++ [step]) =
        ((Draft.empty id strictness).applyAll front).apply step := by
      simp [Draft.applyAll]
    rw [hstep, ih]
    exact Draft.apply_declaredDraft id strictness front step

/-! ## Freezing -/

section Freezing

variable (id : GraphId) (strictness : Strictness) (steps : List SchemaStep)

/-- The kind of a node of the draft is that of its last declaration. -/
theorem kindOf?_declaredDraft (name : String) :
    (declaredDraft id strictness steps).kindOf? name = declaredKind? steps name := by
  rw [declaredKind?, ← Catalog.find?_surviving]
  exact Catalog.find?_mapIdx (NodeDeclaration.node id) _ _ (fun _ _ => rfl) Node.kind
    NodeDeclaration.kind (fun _ _ => rfl) _

/-- The names of a draft that fit no interface or object. -/
theorem nameProblems_declaredDraft :
    ((declaredDraft id strictness steps).nodes.flatMap
        (declaredDraft id strictness steps).nameProblems).map
        (fun problem => (⟨problem.node, problem.code, problem.message, []⟩ : Problem)) =
      (surviving (declarations steps)).flatMap (unresolvedNames steps) := by
  rw [List.map_flatMap]
  apply Catalog.flatMap_mapIdx
  intro slot declared
  simp only [Draft.nameProblems, unresolvedNames, kindOf?_declaredDraft, List.map_append,
    List.map_map]
  rfl

/-- The types of a draft that name nothing. -/
theorem missingTypes_declaredDraft :
    ((declaredDraft id strictness steps).nodes.flatMap
        (declaredDraft id strictness steps).missingTypes).map
        (fun missing => Problem.unresolvedType missing.node missing.owner missing.type) =
      (surviving (declarations steps)).flatMap fun declared =>
        (surviving declared.fields).flatMap (missingTypes steps declared.name) := by
  have hmissing : ∀ node owner type,
      ((declaredDraft id strictness steps).missingType node owner type).map
          (fun missing => Problem.unresolvedType missing.node missing.owner missing.type) =
        missingType steps node owner type := by
    intro node owner type
    rw [Draft.missingType, missingType, kindOf?_declaredDraft]
    split <;> rfl
  rw [List.map_flatMap]
  apply Catalog.flatMap_mapIdx
  intro slot declared
  rw [Draft.missingTypes, List.map_flatMap]
  apply Catalog.flatMap_mapIdx
  intro place field
  rw [Draft.missingTypesOf, missingTypes, List.map_append, hmissing, List.map_flatMap]
  simp only [hmissing, NodeDeclaration.fieldAt, FieldDeclaration.field, List.flatMap_map]
  rfl

/-- Checking a named root adds its problem. -/
theorem checkRoot_declaredDraft (role : String) (kind : Kind) (root : Option String)
    (diagnostics : Diagnostics) :
    (declaredDraft id strictness steps).checkRoot role kind root diagnostics =
      diagnostics.withProblems strictness (wrongRoot steps role kind root) := by
  cases root with
  | none => simp [Draft.checkRoot, wrongRoot]
  | some name =>
    simp only [Draft.checkRoot, wrongRoot, kindOf?_declaredDraft]
    split
    · simp
    · rw [Diagnostics.report_eq]
      rfl

/-- The diagnostics of a draft are what its strictness reports of the problems of its steps. -/
theorem checked_declaredDraft :
    (declaredDraft id strictness steps).checked = ⟨reported strictness (problems steps)⟩ := by
  have hnames : ∀ diagnostics, (declaredDraft id strictness steps).checkNames diagnostics =
      diagnostics.withProblems strictness
        ((surviving (declarations steps)).flatMap (unresolvedNames steps) ++
          (surviving (declarations steps)).flatMap fun declared =>
            (surviving declared.fields).flatMap (missingTypes steps declared.name)) := by
    intro diagnostics
    have hreport := Diagnostics.foldl_withProblems diagnostics strictness
      (fun found (problem : Draft.NameProblem) =>
        found.report strictness problem.node problem.code problem.message)
      (fun problem => ⟨problem.node, problem.code, problem.message, []⟩)
      (fun _ _ => Diagnostics.report_eq _ _ _ _ _)
    have hmissing := fun found => Diagnostics.foldl_withProblems found strictness
      (fun found (missing : Draft.MissingType) =>
        found.unresolvedType missing.node missing.owner missing.type)
      (fun missing => .unresolvedType missing.node missing.owner missing.type)
      (fun _ _ => Diagnostics.unresolvedType_eq _ _ _ _ _)
    rw [Draft.checkNames, hmissing, missingTypes_declaredDraft, Diagnostics.withProblems_append]
    exact congrArg (Diagnostics.withProblems · strictness _)
      ((hreport _).trans (congrArg _ (nameProblems_declaredDraft id strictness steps)))
  simp only [Draft.checked, checkRoot_declaredDraft, hnames, ← Diagnostics.withProblems_append]
  simp [declaredDraft, problems, Diagnostics.withProblems, Diagnostics.empty, reported]

/-- A named root, or else the first surviving node of its kind. -/
def rootNamed (steps : List SchemaStep) (kind : Kind) (named : Option String) : Option String :=
  named.or (((surviving (declarations steps)).find? (·.kind == kind)).map NodeDeclaration.name)

/-- The graph that some steps describe, with the diagnostics that were reported. -/
def declaredGraph (id : GraphId) (steps : List SchemaStep) (found : List Diagnostic) : Graph :=
  { id := id
    nodes := declaredNodes id steps
    query := rootNamed steps .query (namedQuery steps)
    mutation := rootNamed steps .mutation (namedMutation steps)
    subscription := namedSubscription steps
    diagnostics := ⟨found⟩ }

/-- The root of a draft. -/
theorem rootOr_declaredDraft (kind : Kind) (root : Option String) :
    (declaredDraft id strictness steps).rootOr kind root = rootNamed steps kind root := by
  cases root with
  | some name => rfl
  | none =>
    exact Catalog.find?_mapIdx (NodeDeclaration.node id) _ _ (fun _ _ => rfl) Node.name
      NodeDeclaration.name (fun _ _ => rfl) _

/-- A build is decided by the steps: it fails with everything that is reported if an error is
among it, and yields the graph that the steps describe otherwise. -/
theorem build_eq : Graph.build id strictness steps =
    if (reported strictness (problems steps)).any (·.severity == .error) then
      .error (.diagnostics ⟨reported strictness (problems steps)⟩)
    else .ok (declaredGraph id steps (reported strictness (problems steps))) := by
  rw [Graph.build, Draft.applyAll_empty, Draft.freeze, checked_declaredDraft]
  simp only [Diagnostics.hasErrors, rootOr_declaredDraft]
  rfl

end Freezing

end QuerySurface.Schema
