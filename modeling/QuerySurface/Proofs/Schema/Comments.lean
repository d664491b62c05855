import QuerySurface.Proofs.Schema.Walks

/-!
# Comments that stand in for missing ones

A field without comments has those of the first field on its chain that has some. An argument
without comments has those of the argument of its name on the first field of the chain where that
argument has some, but only as far as every field of the chain has an argument of the name: a field
without one hides what stands behind it. Both are what a walk along the chain ends with, also where
interfaces implement each other in a circle and the chain never ends.
-/

namespace QuerySurface.Schema

namespace Graph

/-- If a field of some kind stands on a chain, one of them comes first. -/
theorem Behind.exists_first {graph : Graph} {place : Nat} {field other : Field}
    (wanted : Field → Prop) (h : graph.Behind place field other) (hw : wanted other) :
    ∃ source, graph.FirstBehind wanted (¬wanted ·) field source := by
  classical
  have hsome : ∃ place other, graph.Behind place field other ∧ wanted other := ⟨place, other, h, hw⟩
  obtain ⟨source, hbehind, hsource⟩ := Nat.find_spec hsome
  exact ⟨source, _, hbehind, hsource,
    fun earlier hlt passed hp hpw => Nat.find_min hsome hlt ⟨passed, hp, hpw⟩⟩

/-- What comes first on a chain depends on what holds of its fields. -/
theorem firstBehind_congr {graph : Graph} {field source : Field}
    {wanted passed wanted' passed' : Field → Prop} (hw : ∀ other, wanted other ↔ wanted' other)
    (hp : ∀ other, passed other ↔ passed' other) :
    graph.FirstBehind wanted passed field source ↔
      graph.FirstBehind wanted' passed' field source := by
  simp only [FirstBehind, hw, hp]

/-- A field that is accepted is found at the head of its own chain. -/
theorem search_chain_of_accept {graph : Graph} (hp : graph.Placed) {field : Field}
    (hf : field ∈ graph.fields) {judge : Field → Verdict} (hj : judge field = .accept) :
    search judge (graph.chain field) = some field :=
  (search_chain_iff hp hf).mpr
    ⟨0, .here field, hj, fun _ hlt => absurd hlt (Nat.not_lt_zero _)⟩

end Graph

/-! ## Comments of fields -/

/-- A field with comments is what a walk for the comments of a field looks for. -/
def commentVerdict (field : Field) : Verdict :=
  if field.comments = [] then .pass else .accept

/-- A field is accepted for its comments. -/
theorem commentVerdict_eq_accept_iff {field : Field} :
    commentVerdict field = .accept ↔ field.comments ≠ [] := by
  by_cases h : field.comments = [] <;> simp [commentVerdict, h]

/-- A field is passed for want of comments. -/
theorem commentVerdict_eq_pass_iff {field : Field} :
    commentVerdict field = .pass ↔ field.comments = [] := by
  by_cases h : field.comments = [] <;> simp [commentVerdict, h]

/-- The first comments of some fields are those of the field that a search finds. -/
theorem firstComments_eq_search (fields : List Field) :
    Graph.firstComments (fields.map Field.comments) =
      (search commentVerdict fields).elim [] Field.comments := by
  induction fields with
  | nil => rfl
  | cons field rest ih =>
    rw [search_cons, commentVerdict]
    by_cases h : field.comments = []
    · simpa [Graph.firstComments, h] using ih
    · simp [Graph.firstComments, h]

/-! ## Comments of arguments -/

/-- A field has an argument of a name, with comments. -/
def Commented (name : String) (field : Field) : Prop :=
  ∃ argument, field.argument? name = some argument ∧ argument.comments ≠ []

/-- A field has an argument of a name, without comments. -/
def Uncommented (name : String) (field : Field) : Prop :=
  ∃ argument, field.argument? name = some argument ∧ argument.comments = []

/-- A field that has an argument of a name with comments is what a walk for the comments of an
argument looks for, and it does not look behind a field that has no such argument. -/
def argumentVerdict (name : String) (field : Field) : Verdict :=
  match field.argument? name with
  | some argument => if argument.comments = [] then .pass else .accept
  | none => .refuse

/-- The comments that the argument of a name of a field has. -/
def commentsOfArgument (name : String) (field : Field) : List String :=
  (field.argument? name).elim [] Argument.comments

/-- A field is accepted for the comments of its argument. -/
theorem argumentVerdict_eq_accept_iff {name : String} {field : Field} :
    argumentVerdict name field = .accept ↔ Commented name field := by
  cases ha : field.argument? name with
  | none => simp [argumentVerdict, Commented, ha]
  | some argument =>
    by_cases h : argument.comments = [] <;> simp [argumentVerdict, Commented, ha, h]

/-- A field is passed for want of comments of its argument. -/
theorem argumentVerdict_eq_pass_iff {name : String} {field : Field} :
    argumentVerdict name field = .pass ↔ Uncommented name field := by
  cases ha : field.argument? name with
  | none => simp [argumentVerdict, Uncommented, ha]
  | some argument =>
    by_cases h : argument.comments = [] <;> simp [argumentVerdict, Uncommented, ha, h]

/-- The first comments of the arguments of a name along some fields are those of the argument of the
field that a search finds. -/
theorem firstComments_argumentsAlong (name : String) (fields : List Field) :
    Graph.firstComments ((Graph.argumentsAlong name fields).map Argument.comments) =
      (search (argumentVerdict name) fields).elim [] (commentsOfArgument name) := by
  induction fields with
  | nil => rfl
  | cons field rest ih =>
    rw [search_cons, argumentVerdict, Graph.argumentsAlong]
    cases ha : field.argument? name with
    | none => rfl
    | some argument =>
      by_cases h : argument.comments = []
      · simpa [Graph.firstComments, h] using ih
      · simp [Graph.firstComments, commentsOfArgument, ha, h]

/-! ## Where comments come from -/

/-- Where the comments of a field come from. -/
structure FieldInherits (graph : Graph) (field : Field) : Prop where
  /-- What the field overrides is what the nodes say. -/
  overrides : ∀ next, graph.overridden? field = some next ↔ graph.Overrides field next
  /-- A walk along the chain of the field that remembers what it has passed ends with a field, whose
  comments they are. -/
  ends : ∃ found other,
    (Walk.setOut field).run graph commentVerdict (graph.fields.length + 1) = .ends found ∧
      graph.fieldAt? found = some other ∧ graph.fieldComments field = other.comments
  /-- They are those of the first field on the chain that has comments. -/
  first : ∀ source, graph.FirstBehind (·.comments ≠ []) (·.comments = []) field source →
    graph.fieldComments field = source.comments
  /-- There are none exactly if no field on the chain has any. -/
  none_iff : graph.fieldComments field = [] ↔
    ∀ place other, graph.Behind place field other → other.comments = []

/-- Where the comments of an argument of a field come from. -/
structure ArgumentInherits (graph : Graph) (field : Field) (argument : Argument) : Prop where
  /-- A walk along the chain of the field that the argument belongs to ends with a field, and they
  are the comments of its argument of the name. -/
  ends : ∃ owner found other, graph.fieldAt? argument.field = some owner ∧
    (Walk.setOut owner).run graph (argumentVerdict argument.name) (graph.fields.length + 1) =
      .ends found ∧
    graph.fieldAt? found = some other ∧
    graph.argumentComments argument = commentsOfArgument argument.name other
  /-- They are those of the first field on the chain where the argument of the name has some, if all
  fields in front of it have the argument. -/
  first : ∀ source given,
    graph.FirstBehind (Commented argument.name) (Uncommented argument.name) field source →
      source.argument? argument.name = some given →
        graph.argumentComments argument = given.comments
  /-- There are none if there is no such field. -/
  otherwise : (¬∃ source,
    graph.FirstBehind (Commented argument.name) (Uncommented argument.name) field source) →
      graph.argumentComments argument = []
  /-- A field without the argument hides what stands behind it. -/
  hidden : ∀ place gap, graph.Behind place field gap → gap.argument? argument.name = none →
    (∀ earlier < place, ∀ other, graph.Behind earlier field other →
      ¬Commented argument.name other) → graph.argumentComments argument = []

section sources

variable {graph : Graph} {field source : Field} {argument : Argument}

/-- A search for comments finds the first field on a chain that has some. -/
theorem search_commentVerdict_iff (hp : graph.Placed) (hf : field ∈ graph.fields) :
    search commentVerdict (graph.chain field) = some source ↔
      graph.FirstBehind (·.comments ≠ []) (·.comments = []) field source := by
  rw [graph.search_chain_iff hp hf]
  exact Graph.firstBehind_congr (fun _ => commentVerdict_eq_accept_iff)
    fun _ => commentVerdict_eq_pass_iff

/-- A search for the comments of an argument finds the first field on a chain where the argument of
the name has some, if the fields in front of it have the argument. -/
theorem search_argumentVerdict_iff (hp : graph.Placed) (hf : field ∈ graph.fields) {name : String} :
    search (argumentVerdict name) (graph.chain field) = some source ↔
      graph.FirstBehind (Commented name) (Uncommented name) field source := by
  rw [graph.search_chain_iff hp hf]
  exact Graph.firstBehind_congr (fun _ => argumentVerdict_eq_accept_iff)
    fun _ => argumentVerdict_eq_pass_iff

/-- The comments of a field are those of the field that a search for comments finds. -/
theorem fieldComments_eq_search (graph : Graph) (field : Field) :
    graph.fieldComments field =
      (search commentVerdict (graph.chain field)).elim [] Field.comments :=
  firstComments_eq_search _

/-- The identity of a field of the graph leads to the field. -/
theorem reads_id (hi : graph.Indexed) (hf : field ∈ graph.fields) :
    graph.fieldAt? field.id = some field ∧ graph.field? field.id = some field := by
  obtain ⟨node, hn, hm⟩ := Graph.mem_fields_iff.mp hf
  exact (hi.reads_field hn hm).2

/-- An argument has the identity of the field that takes it. -/
theorem field_of_argument (hi : graph.Indexed) (hf : field ∈ graph.fields)
    (ha : argument ∈ field.arguments) : argument.field = field.id := by
  obtain ⟨node, hn, hm⟩ := Graph.mem_fields_iff.mp hf
  obtain ⟨slot, hs⟩ := List.mem_iff_getElem?.mp hn
  obtain ⟨place, hplace⟩ := List.mem_iff_getElem?.mp hm
  exact hi.argument hs hplace ha

/-- The comments of an argument of a field are those of the argument of its name on the field that a
search for them finds. -/
theorem argumentComments_eq_search (hi : graph.Indexed) (hf : field ∈ graph.fields)
    (ha : argument ∈ field.arguments) :
    graph.argumentComments argument =
      (search (argumentVerdict argument.name) (graph.chain field)).elim []
        (commentsOfArgument argument.name) := by
  rw [Graph.argumentComments, field_of_argument hi hf ha, (reads_id hi hf).2]
  exact firstComments_argumentsAlong _ _

/-- A walk for something that is looked for ends with a field of the graph. That field has what is
looked for if a search finds it, and otherwise it is the first field, which has nothing. -/
theorem exists_found (hi : graph.Indexed) (hp : graph.Placed) (hf : field ∈ graph.fields)
    {judge : Field → Verdict} {comments : Field → List String}
    (hj : judge field = .accept ∨ comments field = []) :
    ∃ found other,
      (Walk.setOut field).run graph judge (graph.fields.length + 1) = .ends found ∧
        graph.fieldAt? found = some other ∧
        (search judge (graph.chain field)).elim [] comments = comments other := by
  rw [run_setOut hi hp hf]
  cases hs : search judge (graph.chain field) with
  | some source =>
    obtain ⟨place, hbehind, -, -⟩ := (graph.search_chain_iff hp hf).mp hs
    exact ⟨_, source, rfl, (reads_id hi (hbehind.mem hf)).1, rfl⟩
  | none =>
    have hnone : comments field = [] := by
      rcases hj with haccept | hnone
      · rw [Graph.search_chain_of_accept hp hf haccept] at hs
        cases hs
      · exact hnone
    exact ⟨_, field, rfl, (reads_id hi hf).1, hnone.symm⟩

/-- The comments of a field of a graph that was built from any steps, also where interfaces
implement each other in a circle: they are those of the first field on its chain that has some. -/
theorem fieldInherits_of_build {id : GraphId} {strictness : Strictness} {steps : List SchemaStep}
    (hb : Graph.build id strictness steps = .ok graph) (hf : field ∈ graph.fields) :
    FieldInherits graph field := by
  have hp := Graph.placed_of_build hb
  have hi := Graph.indexed_of_build hb
  have hfirst : ∀ source, graph.FirstBehind (·.comments ≠ []) (·.comments = []) field source →
      graph.fieldComments field = source.comments := by
    intro source hsource
    rw [fieldComments_eq_search, (search_commentVerdict_iff hp hf).mpr hsource]
    rfl
  constructor
  · exact fun next => ⟨Graph.overrides_of_overridden? hp hf, fun h => h.overridden?_eq hp⟩
  · rw [fieldComments_eq_search]
    refine exists_found hi hp hf ?_
    rw [commentVerdict_eq_accept_iff]
    exact (em _).symm
  · exact hfirst
  · constructor
    · intro hnone place other hbehind
      by_contra hcomments
      obtain ⟨source, first, hsource, hwanted, hpassed⟩ :=
        hbehind.exists_first (·.comments ≠ []) hcomments
      rw [hfirst source ⟨first, hsource, hwanted, by simpa using hpassed⟩] at hnone
      exact hwanted hnone
    · intro hnone
      rw [fieldComments_eq_search]
      cases hs : search commentVerdict (graph.chain field) with
      | none => rfl
      | some source =>
        obtain ⟨place, hsource, hwanted, -⟩ := (search_commentVerdict_iff hp hf).mp hs
        exact absurd (hnone place source hsource) hwanted

/-- A schema with a circle of interfaces that does not come back to the object in front of it. One
field of the circle has comments. One argument has comments further up, and so has another one
that the first interface lacks. -/
def circularSteps : List SchemaStep :=
  [ .node "String" .scalar [],
    .node "Named" .interface
      [ .implements "Titled",
        .field "name" ⟨"String", false, true⟩ false false
          [.argument "style" ⟨"String", false, true⟩ false []] ],
    .node "Titled" .interface
      [ .implements "Labeled",
        .field "name" ⟨"String", false, true⟩ false false
          [ .argument "style" ⟨"String", false, true⟩ false ["Long or short."],
            .argument "locale" ⟨"String", false, true⟩ false ["A language."] ] ],
    .node "Labeled" .interface
      [ .implements "Named",
        .field "name" ⟨"String", false, true⟩ false false [.comment "What it is called."] ],
    .node "Dog" .object
      [ .implements "Named",
        .field "name" ⟨"String", false, true⟩ false false
          [ .argument "style" ⟨"String", false, true⟩ false [],
            .argument "locale" ⟨"String", false, true⟩ false [] ] ] ]

/-- The name of a dog, whose chain runs into the circle, has comments by this law. -/
theorem fieldInherits_circular :
    ∃ graph field, Graph.build ⟨0⟩ .strict circularSteps = .ok graph ∧ field ∈ graph.fields ∧
      FieldInherits graph field ∧ field.path = "Dog.name" ∧
      graph.fieldComments field = ["What it is called."] := by
  obtain ⟨graph, field, hb, hf, hpath, hcomments⟩ : ∃ graph field,
      Graph.build ⟨0⟩ .strict circularSteps = .ok graph ∧ field ∈ graph.fields ∧
        field.path = "Dog.name" ∧ graph.fieldComments field = ["What it is called."] :=
    ⟨_, _, rfl, .tail _ (.tail _ (.tail _ (.head _))), rfl, rfl⟩
  exact ⟨graph, field, hb, hf, fieldInherits_of_build hb hf, hpath, hcomments⟩

/-- The comments of an argument of a field of a graph that was built from any steps, also where
interfaces implement each other in a circle: they are those of the first field on the chain where
the argument of the name has some, unless a field in front of it has no such argument. -/
theorem argumentInherits_of_build {id : GraphId} {strictness : Strictness}
    {steps : List SchemaStep} (hb : Graph.build id strictness steps = .ok graph)
    (hf : field ∈ graph.fields) (ha : argument ∈ field.arguments) :
    ArgumentInherits graph field argument := by
  have hp := Graph.placed_of_build hb
  have hi := Graph.indexed_of_build hb
  have heq := argumentComments_eq_search hi hf ha
  have hnone : (¬∃ source,
      graph.FirstBehind (Commented argument.name) (Uncommented argument.name) field source) →
        graph.argumentComments argument = [] := by
    intro hno
    cases hs : search (argumentVerdict argument.name) (graph.chain field) with
    | none => rw [heq, hs, Option.elim_none]
    | some source => exact absurd ⟨source, (search_argumentVerdict_iff hp hf).mp hs⟩ hno
  constructor
  · have hown : argumentVerdict argument.name field = .accept ∨
        commentsOfArgument argument.name field = [] := by
      rw [argumentVerdict_eq_accept_iff, Commented, commentsOfArgument]
      cases field.argument? argument.name with
      | none => exact .inr rfl
      | some own => simpa using (em _).symm
    obtain ⟨found, other, hruns, hfound, hcomments⟩ := exists_found hi hp hf hown
    refine ⟨field, found, other, ?_, hruns, hfound, heq.trans hcomments⟩
    rw [field_of_argument hi hf ha]
    exact (reads_id hi hf).1
  · intro source given hsource hgiven
    rw [heq, (search_argumentVerdict_iff hp hf).mpr hsource, Option.elim_some, commentsOfArgument,
      hgiven, Option.elim_some]
  · exact hnone
  · intro place gap hgap hlacks hfront
    refine hnone fun ⟨source, first, hbehind, hcommented, hpassed⟩ => ?_
    rcases Nat.lt_trichotomy first place with hlt | rfl | hlt
    · exact hfront first hlt source hbehind hcommented
    · obtain ⟨given, hgiven, -⟩ := hcommented
      rw [hgap.unique hp hbehind, hgiven] at hlacks
      cases hlacks
    · obtain ⟨skipped, hskipped, -⟩ := hpassed place hlt gap hgap
      rw [hskipped] at hlacks
      cases hlacks

/-- The style of the name of a dog has the comments that stand behind a field without any for it. -/
theorem argumentInherits_circular :
    ∃ graph field argument, Graph.build ⟨0⟩ .strict circularSteps = .ok graph ∧
      field ∈ graph.fields ∧ argument ∈ field.arguments ∧
      ArgumentInherits graph field argument ∧ field.path = "Dog.name" ∧
      argument.name = "style" ∧ graph.argumentComments argument = ["Long or short."] := by
  obtain ⟨graph, field, argument, hb, hf, ha, hpath, hname, hcomments⟩ : ∃ graph field argument,
      Graph.build ⟨0⟩ .strict circularSteps = .ok graph ∧ field ∈ graph.fields ∧
        argument ∈ field.arguments ∧ field.path = "Dog.name" ∧ argument.name = "style" ∧
        graph.argumentComments argument = ["Long or short."] :=
    ⟨_, _, _, rfl, .tail _ (.tail _ (.tail _ (.head _))), .head _, rfl, rfl, rfl⟩
  exact ⟨graph, field, argument, hb, hf, ha, argumentInherits_of_build hb hf ha, hpath, hname,
    hcomments⟩

/-- The comments of the locale of this name are hidden by an interface that has no locale. -/
example :
    ((Graph.build ⟨0⟩ .strict circularSteps).toOption.bind fun graph =>
      (graph.fields.getLast?.bind (·.argument? "locale")).map graph.argumentComments) =
        some [] := by
  rfl

end sources

end QuerySurface.Schema
