import QuerySurface.Proofs.Schema.Declared
import QuerySurface.Schema.Draft

/-!
# The problems of declarations

What is wrong with a list of steps, said without building anything and before any level is
known: first the names that were taken, in the order of the steps; then, over what survives,
the names that fit no interface or object, the types that name nothing, and the roots of a
wrong kind. A strictness setting then drops the problems it ignores and grades the others: this
is told once as a relation of problems and diagnostics, which has one case for each level, and
once as the list that is reported.
-/

namespace QuerySurface.Schema

open Catalog (surviving last? names)

/-- A problem, before its level is known. -/
structure Problem where
  /-- The type that the problem is about. -/
  node : String
  /-- What kind of problem it is. -/
  code : Code
  /-- What is wrong. -/
  message : String
  /-- Where the offending name stands. -/
  context : List String
  deriving DecidableEq, Repr

namespace Problem

/-- The diagnostic of a problem, graded by the level of its code; none if that is to ignore. -/
def diagnostic? (strictness : Strictness) (problem : Problem) : Option Diagnostic :=
  (strictness.level problem.code).severity?.map fun severity =>
    ⟨problem.node, problem.code, severity, problem.message, problem.context⟩

/-- A name that was taken. -/
def duplicate (node : String) (code : Code) (what : String) : Problem :=
  ⟨node, code, "'" ++ what ++ "' is declared more than once; the last declaration wins", []⟩

/-- A name that is no interface. -/
def unresolvedInterface (node name : String) : Problem :=
  ⟨node, .unresolvedInterface, "'" ++ name ++ "' is not a declared interface; it is ignored", []⟩

/-- A name that is no object. -/
def unresolvedMember (node name : String) : Problem :=
  ⟨node, .unresolvedUnionMember, "'" ++ name ++ "' is not a declared object type; it is ignored",
    []⟩

/-- A type that names nothing. -/
def unresolvedType (node owner type : String) : Problem :=
  ⟨node, .unresolvedType, "type '" ++ type ++ "' is not declared in the schema",
    ["referenced by " ++ owner]⟩

/-- A root of a wrong kind. -/
def rootMismatch (role : String) (kind : Kind) (name : String) (found : Option Kind) : Problem :=
  ⟨name, .rootKindMismatch,
    role ++ " root must be a " ++ kind.word ++ " node, found " ++ found.elim "nothing" Kind.word,
    []⟩

end Problem

/-- What a strictness setting reports of some problems. -/
def reported (strictness : Strictness) (problems : List Problem) : List Diagnostic :=
  problems.filterMap (Problem.diagnostic? strictness)

/-! ## Levels and grades -/

/-- The level that a strictness setting assigns to a code. -/
inductive Strictness.Assigns (strictness : Strictness) : Code → Level → Prop where
  /-- Names that are declared twice have the level that is set for them. -/
  | repeated {code : Code} (mem : code ∈ [Code.duplicateNode, .duplicateField, .duplicateArgument,
      .duplicateEnumValue]) : Assigns strictness code strictness.duplicateDefinition
  /-- Interfaces and union members that name nothing fitting have the level that is set for them. -/
  | unresolved {code : Code} (mem : code ∈ [Code.unresolvedInterface, .unresolvedUnionMember]) :
    Assigns strictness code strictness.unresolvedInterface
  /-- Missing types and roots of a wrong kind are errors under every setting. -/
  | unconditional {code : Code} (mem : code ∈ [Code.unresolvedType, .rootKindMismatch]) :
    Assigns strictness code .error

/-- Diagnostics grade problems under a strictness setting: problems to ignore are left out, and the
others are there in their order, each as a warning or as an error. -/
inductive Graded (strictness : Strictness) : List Problem → List Diagnostic → Prop where
  /-- There are no problems. -/
  | nil : Graded strictness [] []
  /-- A problem to ignore is left out. -/
  | ignored {problem : Problem} {problems : List Problem} {found : List Diagnostic}
      (level : strictness.Assigns problem.code .ignore) (rest : Graded strictness problems found) :
    Graded strictness (problem :: problems) found
  /-- A problem to warn of is there as a warning. -/
  | warned {problem : Problem} {problems : List Problem} {found : List Diagnostic}
      (level : strictness.Assigns problem.code .warn) (rest : Graded strictness problems found) :
    Graded strictness (problem :: problems)
      (⟨problem.node, problem.code, .warning, problem.message, problem.context⟩ :: found)
  /-- A problem that is an error is there as an error. -/
  | failed {problem : Problem} {problems : List Problem} {found : List Diagnostic}
      (level : strictness.Assigns problem.code .error) (rest : Graded strictness problems found) :
    Graded strictness (problem :: problems)
      (⟨problem.node, problem.code, .error, problem.message, problem.context⟩ :: found)

/-- Every code is assigned one level. -/
theorem Strictness.assigns_iff (strictness : Strictness) (code : Code) (level : Level) :
    strictness.Assigns code level ↔ strictness.level code = level := by
  constructor
  · rintro (hm | hm | hm) <;> simp only [List.mem_cons, List.not_mem_nil, or_false] at hm
    · rcases hm with rfl | rfl | rfl | rfl <;> rfl
    · rcases hm with rfl | rfl <;> rfl
    · rcases hm with rfl | rfl <;> rfl
  · rintro rfl
    cases code with
    | duplicateNode | duplicateField | duplicateArgument | duplicateEnumValue =>
      exact .repeated (by decide)
    | unresolvedInterface | unresolvedUnionMember => exact .unresolved (by decide)
    | unresolvedType | rootKindMismatch => exact .unconditional (by decide)

/-- What is reported grades the problems, and nothing else does. -/
theorem graded_iff (strictness : Strictness) (problems : List Problem) (found : List Diagnostic) :
    Graded strictness problems found ↔ found = reported strictness problems := by
  constructor
  · intro h
    induction h with
    | nil => rfl
    | ignored hlevel _ ih | warned hlevel _ ih | failed hlevel _ ih =>
      rw [Strictness.assigns_iff] at hlevel
      rw [ih, reported, reported, List.filterMap_cons, Problem.diagnostic?, hlevel]
      rfl
  · rintro rfl
    induction problems with
    | nil => exact .nil
    | cons problem problems ih =>
      rw [reported, List.filterMap_cons, Problem.diagnostic?]
      cases hlevel : strictness.level problem.code with
      | ignore => exact .ignored ((strictness.assigns_iff _ _).mpr hlevel) ih
      | warn => exact .warned ((strictness.assigns_iff _ _).mpr hlevel) ih
      | error => exact .failed ((strictness.assigns_iff _ _).mpr hlevel) ih

/-! ## Names that were taken -/

/-- What is found along a list, where each entry is seen with those in front of it. -/
def foundAlong {α : Type} (found : List α → α → List Problem) :
    (before entries : List α) → List Problem
  | _, [] => []
  | before, entry :: rest => found before entry ++ foundAlong found (before ++ [entry]) rest

/-- The problem of a name that is among those taken. -/
def takenName (taken : List String) (name node : String) (code : Code) (what : String) :
    List Problem :=
  if name ∈ taken then [.duplicate node code what] else []

/-- Repeated arguments of a declared field. -/
def FieldDeclaration.duplicates (owner : String) (declared : FieldDeclaration) : List Problem :=
  foundAlong (fun before (argument : ArgumentDeclaration) =>
    takenName (names before) argument.name owner .duplicateArgument
      (argumentPath declared.name argument.name)) [] declared.arguments

/-- What a step inside a node repeats of the steps in front of it, and inside itself. -/
def NodeStep.duplicates (node : String) (before : List NodeStep) : NodeStep → List Problem
  | .enumValue name _ =>
    takenName (names (before.filterMap value?)) name node .duplicateEnumValue name
  | .field name type required hasDefault body =>
    takenName (names (before.filterMap field?)) name node .duplicateField name ++
      FieldDeclaration.duplicates node ⟨name, type, required, hasDefault, body⟩
  | _ => []

/-- Repeated names inside a declared node, in the order of its steps. -/
def NodeDeclaration.duplicates (declared : NodeDeclaration) : List Problem :=
  foundAlong (NodeStep.duplicates declared.name) [] declared.body

/-- Every name that was taken, in the order of the steps, also inside nodes that are replaced
later on. -/
def duplicates (steps : List SchemaStep) : List Problem :=
  foundAlong (fun before (declared : NodeDeclaration) =>
    takenName (names before) declared.name declared.name .duplicateNode declared.name ++
      declared.duplicates) [] (declarations steps)

/-! ## Names that refer to nothing fitting -/

/-- The kind that was declared last under a name. -/
def declaredKind? (steps : List SchemaStep) (name : String) : Option Kind :=
  (last? name (declarations steps)).map NodeDeclaration.kind

/-- Interfaces and members of a declared node that are none. -/
def unresolvedNames (steps : List SchemaStep) (declared : NodeDeclaration) : List Problem :=
  (declared.interfaces.filter fun name => declaredKind? steps name != some .interface).map
      (Problem.unresolvedInterface declared.name) ++
    (declared.members.filter fun name => declaredKind? steps name != some .object).map
      (Problem.unresolvedMember declared.name)

/-- The problem of a type that names nothing. -/
def missingType (steps : List SchemaStep) (node owner : String) (type : TypeRef) : List Problem :=
  if (declaredKind? steps type.node).isNone then [.unresolvedType node owner type.node] else []

/-- Types of a declared field and of its arguments that name nothing. -/
def missingTypes (steps : List SchemaStep) (node : String) (field : FieldDeclaration) :
    List Problem :=
  missingType steps node ("field '" ++ field.name ++ "'") field.type ++
    (surviving field.arguments).flatMap fun argument =>
      missingType steps node ("argument '" ++ argument.name ++ "' of field '" ++ field.name ++ "'")
        argument.type

/-- The problem of a named root that is not of its kind. -/
def wrongRoot (steps : List SchemaStep) (role : String) (kind : Kind) :
    (root : Option String) → List Problem
  | some name =>
    if declaredKind? steps name = some kind then []
    else [.rootMismatch role kind name (declaredKind? steps name)]
  | none => []

/-- Names that fit nothing depend on the kinds of the declared nodes alone. -/
theorem unresolvedNames_congr {steps others : List SchemaStep}
    (h : declaredKind? steps = declaredKind? others) :
    unresolvedNames steps = unresolvedNames others := by
  funext declared
  rw [unresolvedNames, h, unresolvedNames]

/-- Types that name nothing depend on the kinds of the declared nodes alone. -/
theorem missingTypes_congr {steps others : List SchemaStep}
    (h : declaredKind? steps = declaredKind? others) :
    missingTypes steps = missingTypes others := by
  have hm : missingType steps = missingType others := by
    funext node owner type
    rw [missingType, h, missingType]
  funext node field
  rw [missingTypes, hm, missingTypes]

/-- Roots of a wrong kind depend on the kinds of the declared nodes alone. -/
theorem wrongRoot_congr {steps others : List SchemaStep}
    (h : declaredKind? steps = declaredKind? others) : wrongRoot steps = wrongRoot others := by
  funext role kind root
  cases root with
  | none => rfl
  | some name => rw [wrongRoot, h, wrongRoot]

/-- All problems of a list of steps, in the order in which they are reported. -/
def problems (steps : List SchemaStep) : List Problem :=
  duplicates steps ++
  (surviving (declarations steps)).flatMap (unresolvedNames steps) ++
  ((surviving (declarations steps)).flatMap fun declared =>
    (surviving declared.fields).flatMap (missingTypes steps declared.name)) ++
  wrongRoot steps "query" .query (namedQuery steps) ++
  wrongRoot steps "mutation" .mutation (namedMutation steps) ++
  wrongRoot steps "subscription" .object (namedSubscription steps)

/-! ## Adding problems to diagnostics -/

/-- Diagnostics with what is reported of some more problems. -/
def Diagnostics.withProblems (diagnostics : Diagnostics) (strictness : Strictness)
    (more : List Problem) : Diagnostics :=
  ⟨diagnostics.items ++ reported strictness more⟩

variable (diagnostics : Diagnostics) (strictness : Strictness)

/-- No problems add nothing. -/
@[simp] theorem Diagnostics.withProblems_nil :
    diagnostics.withProblems strictness [] = diagnostics := by
  simp [withProblems, reported]

/-- Problems are added in their order. -/
theorem Diagnostics.withProblems_append (front back : List Problem) :
    diagnostics.withProblems strictness (front ++ back) =
      (diagnostics.withProblems strictness front).withProblems strictness back := by
  simp [withProblems, reported]

/-- A report adds one problem. -/
theorem Diagnostics.report_eq (node : String) (code : Code) (message : String) :
    diagnostics.report strictness node code message =
      diagnostics.withProblems strictness [⟨node, code, message, []⟩] := by
  unfold Diagnostics.report withProblems reported Problem.diagnostic?
  cases h : (strictness.level code).severity? with
  | none => simp [h]
  | some severity => simp [Diagnostics.push, h]

/-- The error about a missing type adds one problem, whatever the strictness. -/
theorem Diagnostics.unresolvedType_eq (node owner type : String) :
    diagnostics.unresolvedType node owner type =
      diagnostics.withProblems strictness [.unresolvedType node owner type] := by
  have hd : Problem.diagnostic? strictness (.unresolvedType node owner type) =
      some (Diagnostics.unresolvedTypeItem node owner type) := rfl
  simp [Diagnostics.unresolvedType, Diagnostics.push, withProblems, reported, hd]

/-- Reporting a name if it is taken adds the problem of a taken name. -/
theorem Diagnostics.duplicateIf_eq {α : Type} [Named α] (entries : List α)
    (name node : String) (code : Code) (what : String) :
    diagnostics.duplicateIf (Catalog.has name entries) strictness node code what =
      diagnostics.withProblems strictness (takenName (names entries) name node code what) := by
  rw [Catalog.has_eq_decide]
  unfold Diagnostics.duplicateIf takenName
  by_cases h : name ∈ names entries
  · rw [decide_eq_true h, if_pos rfl, if_pos h, Diagnostics.duplicate, Diagnostics.report_eq]
    rfl
  · rw [decide_eq_false h, if_neg Bool.false_ne_true, if_neg h, withProblems_nil]

/-- Several reports add their problems in order. -/
theorem Diagnostics.foldl_withProblems {α : Type} (add : Diagnostics → α → Diagnostics)
    (problem : α → Problem)
    (h : ∀ found item, add found item = found.withProblems strictness [problem item])
    (items : List α) :
    items.foldl add diagnostics = diagnostics.withProblems strictness (items.map problem) := by
  induction items generalizing diagnostics with
  | nil => simp
  | cons item rest ih =>
    rw [List.foldl_cons, h, ih, ← withProblems_append]
    rfl

/-- Along one more entry, what it adds is found in view of all the others. -/
theorem foundAlong_concat {α : Type} (found : List α → α → List Problem) (before entries : List α)
    (entry : α) : foundAlong found before (entries ++ [entry]) =
      foundAlong found before entries ++ found (before ++ entries) entry := by
  induction entries generalizing before with
  | nil => simp [foundAlong]
  | cons head rest ih => simp [foundAlong, ih]

/-- Names are taken alike in lists that hold the same names. -/
theorem takenName_congr {left right : List String} (h : ∀ name, name ∈ left ↔ name ∈ right)
    (name node : String) (code : Code) (what : String) :
    takenName left name node code what = takenName right name node code what := by
  simp only [takenName, h]

/-- Types that name nothing and roots of a wrong kind are errors under every strictness. -/
theorem severity_of_mem_reported {all : List Problem} {item : Diagnostic}
    (hm : item ∈ reported strictness all)
    (hc : item.code = .unresolvedType ∨ item.code = .rootKindMismatch) :
    item.severity = .error := by
  obtain ⟨problem, _, hd⟩ := List.mem_filterMap.mp hm
  obtain ⟨severity, hs, rfl⟩ := Option.map_eq_some_iff.mp hd
  dsimp only at hc ⊢
  rcases hc with hc | hc <;> rw [hc] at hs <;> exact (Option.some.inj hs).symm

end QuerySurface.Schema
