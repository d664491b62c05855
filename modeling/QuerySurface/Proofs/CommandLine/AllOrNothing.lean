import QuerySurface.CommandLine.Run
import QuerySurface.Proofs.Files.Recorded

/-!
# All or nothing

A run looks at the file tree, makes all files in memory, and only then changes the tree. If the
settings or the schema cannot be loaded, or the files cannot be made, the tree stays as it is. All
other changes of a run are those of writing these files below the output directory: the directory
is made, and then the files are written in order, all of them or those in front of the first that
cannot be written.
-/

namespace QuerySurface

open Files

/-! ## Looking at the tree -/

namespace Settings

/-- Finding a file. -/
theorem looks_findFile (path : String) :
    Looks (findFile Recorded.disk path) (findFile Tree.disk path) := by
  rw [findFile, findFile]
  refine (looks_isFile path).bind fun found => ?_
  cases found with
  | true => exact .pure _
  | false =>
    cases Files.extended? path "toml" with
    | none => exact .pure _
    | some toml =>
      cases Files.extended? path "json" with
      | none => exact .pure _
      | some json =>
        refine (looks_isFile toml).bind fun found => ?_
        cases found with
        | true => exact .pure _
        | false =>
          refine (looks_isFile json).bind fun found => ?_
          cases found <;> exact .pure _

/-- Reading a file of settings. -/
theorem looks_readFile (needed : Bool) (path : String) :
    Looks (readFile Recorded.disk needed path) (readFile Tree.disk needed path) := by
  rw [readFile, readFile]
  refine (looks_findFile path).bind fun found => ?_
  cases found with
  | none => exact .pure _
  | some found =>
    refine (looks_read found.1).bind fun outcome => ?_
    cases outcome <;> exact .pure _

/-- Reading several files of settings. -/
theorem looks_readFiles (files : List (Bool × String)) :
    Looks (readFiles Recorded.disk files) (readFiles Tree.disk files) := by
  induction files with
  | nil => exact .pure _
  | cons file rest ih =>
    rw [readFiles, readFiles]
    refine (looks_readFile file.1 file.2).bind fun outcome => ?_
    cases outcome with
    | error failure => exact .pure _
    | ok entries =>
      refine ih.bind fun outcome => ?_
      cases outcome <;> exact .pure _

/-- Looking for the file of the user. -/
theorem looks_userFiles (surroundings : Surroundings) :
    Looks (userFiles Recorded.disk surroundings) (userFiles Tree.disk surroundings) := by
  rw [userFiles, userFiles]
  cases surroundings.userDirectory with
  | none => exact .pure _
  | some directory =>
    refine (looks_isFile _).bind fun isFile => ?_
    exact (looks_isDirectory _).bind fun isDirectory => .pure _

/-- Loading settings. -/
theorem looks_load (surroundings : Surroundings) (asked : Option String) :
    Looks (load Recorded.disk surroundings asked) (load Tree.disk surroundings asked) := by
  rw [load, load, sources, sources]
  refine ((looks_userFiles surroundings).bind fun ofUser => .pure _).bind fun files => ?_
  refine (looks_readFiles files).bind fun outcome => ?_
  cases outcome <;> exact .pure _

end Settings

namespace Schema

/-- Reading documents. -/
theorem looks_readDocuments (paths : List String) :
    Looks (readDocuments Recorded.disk paths) (readDocuments Tree.disk paths) := by
  induction paths with
  | nil => exact .pure _
  | cons path rest ih =>
    rw [readDocuments, readDocuments]
    refine (looks_readText path).bind fun text => ?_
    cases documentOf path text with
    | error failure => exact .pure _
    | ok document =>
      refine ih.bind fun outcome => ?_
      cases outcome <;> exact .pure _

/-- What loading a graph does once it is known which files are documents. -/
def loadFiles {m : Type → Type} [Monad m] (disk : Disk m) (id : GraphId) (settings : LoadSettings)
    (path : String) (files : List String) : m (Outcome Graph) := do
  if files.isEmpty then return .error (.schema path "no schema documents found")
  match ← readDocuments disk files with
  | .error failure => return .error failure
  | .ok documents => return Graph.ofDocuments id settings documents

/-- Loading the files of a graph. -/
theorem looks_loadFiles (id : GraphId) (settings : LoadSettings) (path : String)
    (files : List String) :
    Looks (loadFiles Recorded.disk id settings path files)
      (loadFiles Tree.disk id settings path files) := by
  rw [loadFiles, loadFiles]
  cases files.isEmpty with
  | true => exact .pure _
  | false =>
    refine (looks_readDocuments files).bind fun outcome => ?_
    cases outcome <;> exact .pure _

/-- Loading a graph. -/
theorem looks_load (id : GraphId) (settings : LoadSettings) (path : String) :
    Looks (Graph.load Recorded.disk id settings path) (Graph.load Tree.disk id settings path) := by
  have hfrom := looks_loadFiles id settings path
  rw [Graph.load, Graph.load]
  refine (looks_isDirectory path).bind fun isDirectory => ?_
  cases isDirectory with
  | true => exact (looks_filesBelow path).bind fun listing => (Looks.pure _).bind hfrom
  | false => exact (Looks.pure _).bind hfrom

end Schema

namespace CommandLine

/-! ## What a run makes -/

/-- The settings under which a run takes place that finds a tree. -/
def settingsIn (surroundings : Settings.Surroundings) (request : Request) (tree : Tree) :
    Outcome Settings :=
  ((Settings.load Tree.disk surroundings request.config).run tree).1.map request.apply

/-- The graph that a run loads that finds a tree. -/
def graphIn (surroundings : Settings.Surroundings) (settings : Settings) (tree : Tree) :
    Outcome Schema.Graph :=
  ((Schema.Graph.load Tree.disk graphId settings.loading
    (settings.schemaPath surroundings.workingDirectory)).run tree).1

/-- Making the files of a graph: all sources, or one file with all plans. -/
inductive Makes (settings : Settings) (graph : Schema.Graph) : Outcome (List TextFile) → Prop where
  /-- The sources are built. -/
  | sources (format : settings.output.format = .rust) :
    Makes settings graph ((Traits.backend settings.layout.scalars).build graph settings.layout)
  /-- The plans are generated. -/
  | plans {plans : List Plan.NodePlan} (format : settings.output.format = .plan)
      (generated : Plan.generate graph settings.layout = .ok plans) :
    Makes settings graph (.ok [⟨"plans.json", (Plan.plansValue plans).pretty⟩])
  /-- The plans cannot be generated. -/
  | noPlans {failure : Failure} (format : settings.output.format = .plan)
      (generated : Plan.generate graph settings.layout = .error failure) :
    Makes settings graph (.error failure)

/-- A run that finds a tree gets as far as writing files. -/
structure Prepares (surroundings : Settings.Surroundings) (request : Request) (tree : Tree)
    (settings : Settings) (graph : Schema.Graph) (files : List TextFile) : Prop where
  /-- The settings are loaded. -/
  settings_eq : settingsIn surroundings request tree = .ok settings
  /-- The schema is loaded and frozen. -/
  graph_eq : graphIn surroundings settings tree = .ok graph
  /-- The files are made. -/
  makes : Makes settings graph (.ok files)

/-- A run that finds a tree fails before anything is written: its status is one, and it says at what
it failed and why. -/
inductive Refuses (surroundings : Settings.Surroundings) (request : Request) (tree : Tree) :
    Report → Prop where
  /-- The settings cannot be loaded. -/
  | settings {failure : Failure}
      (failed_eq : settingsIn surroundings request tree = .error failure) :
    Refuses surroundings request tree
      ⟨1, "", "Error: failed to load configuration: " ++ complaintOf failure ++ "\n"⟩
  /-- The schema cannot be loaded or frozen. -/
  | schema {settings : Settings} {failure : Failure}
      (settings_eq : settingsIn surroundings request tree = .ok settings)
      (failed_eq : graphIn surroundings settings tree = .error failure) :
    Refuses surroundings request tree
      ⟨1, "", "Error: failed to load schema from " ++
        settings.schemaPath surroundings.workingDirectory ++ ": " ++ complaintOf failure ++ "\n"⟩
  /-- The files cannot be made: the layout is invalid, or a plan cannot be derived or emitted. -/
  | files {settings : Settings} {graph : Schema.Graph} {failure : Failure}
      (settings_eq : settingsIn surroundings request tree = .ok settings)
      (graph_eq : graphIn surroundings settings tree = .ok graph)
      (makes : Makes settings graph (.error failure)) :
    Refuses surroundings request tree
      ⟨1, warningLines graph, "Error: " ++ complaintOf failure ++ "\n"⟩

/-- How a run that finds a tree ends: its report, its changes, and the tree that it leaves. -/
inductive Ends (surroundings : Settings.Surroundings) (arguments : List String) (tree : Tree) :
    Report → List Change → Tree → Prop where
  /-- It only says how it is used. -/
  | help (demand : Demand.ofArguments arguments = .help) :
    Ends surroundings arguments tree ⟨0, helpText, ""⟩ [] tree
  /-- It only says that the arguments make no sense. -/
  | misuse (demand : Demand.ofArguments arguments = .misuse) :
    Ends surroundings arguments tree ⟨2, "", misuseText⟩ [] tree
  /-- It fails with an error and changes nothing. -/
  | refused {request : Request} {report : Report}
      (demand : Demand.ofArguments arguments = .run request)
      (refuses : Refuses surroundings request tree report) :
    Ends surroundings arguments tree report [] tree
  /-- It fails with an error while files are written. -/
  | stopped {request : Request} {settings : Settings} {graph : Schema.Graph}
      {files : List TextFile} {fault : Fault} {changes : List Change} {later : Tree}
      (demand : Demand.ofArguments arguments = .run request)
      (prepares : Prepares surroundings request tree settings graph files)
      (progress : Progress (settings.outputPath surroundings.workingDirectory) files tree
        (.error fault) changes later) :
    Ends surroundings arguments tree
      ⟨1, warningLines graph, "Error: failed to write output to " ++
        settings.outputPath surroundings.workingDirectory ++ ": " ++ complaintOf (.file fault) ++
          "\n"⟩ changes later
  /-- It succeeds, and all files are written. -/
  | complete {request : Request} {settings : Settings} {graph : Schema.Graph}
      {files : List TextFile} {changes : List Change} {later : Tree}
      (demand : Demand.ofArguments arguments = .run request)
      (prepares : Prepares surroundings request tree settings graph files)
      (progress : Progress (settings.outputPath surroundings.workingDirectory) files tree
        (.ok ()) changes later) :
    Ends surroundings arguments tree
      ⟨0, warningLines graph ++
        summary graph files (settings.outputPath surroundings.workingDirectory), ""⟩ changes later

/-! ## Reports of failures -/

/-- The report of a failure that comes while nothing is said to be done. -/
theorem failed_empty (printed : String) (failure : Failure) :
    failed printed "" failure = ⟨1, printed, "Error: " ++ complaintOf failure ++ "\n"⟩ := by
  simp [failed]

/-- The report of a failure that comes while something is said to be done. -/
theorem failed_append (printed : String) {front : String} (hf : front ≠ "") (back : String)
    (failure : Failure) :
    failed printed (front ++ back) failure =
      ⟨1, printed, "Error: " ++ front ++ back ++ ": " ++ complaintOf failure ++ "\n"⟩ := by
  have hdoing : (front ++ back).isEmpty = false := by
    simp [hf]
  simp [failed, hdoing, String.append_assoc]

/-! ## The end of a run -/

/-- The files of a graph are made, or that fails. -/
theorem makes_filesOf (settings : Settings) (graph : Schema.Graph) :
    Makes settings graph (filesOf settings graph) := by
  rw [filesOf]
  cases hf : settings.output.format with
  | rust => exact .sources hf
  | plan =>
    cases hg : Plan.generate graph settings.layout with
    | error failure => exact .noPlans hf hg
    | ok plans => exact .plans hf hg

section runs

variable {surroundings : Settings.Surroundings} {arguments : List String} {request : Request}
  {tree : Tree} {settings : Settings} {graph : Schema.Graph}

/-- The end of a run that has loaded a graph. -/
theorem exists_ends_produce (hd : Demand.ofArguments arguments = .run request)
    (hs : settingsIn surroundings request tree = .ok settings)
    (hg : graphIn surroundings settings tree = .ok graph) :
    ∃ report changes later,
      Does
          (produce Recorded.disk (settings.outputPath surroundings.workingDirectory) settings graph)
          (produce Tree.disk (settings.outputPath surroundings.workingDirectory) settings graph)
          tree report changes later ∧
        Ends surroundings arguments tree report changes later := by
  have hmakes := makes_filesOf settings graph
  rw [produce, produce]
  cases hf : filesOf settings graph with
  | error failure =>
    rw [hf] at hmakes
    refine ⟨_, _, _, .pure _ _, ?_⟩
    rw [failed_empty]
    exact .refused hd (.files hs hg hmakes)
  | ok files =>
    rw [hf] at hmakes
    obtain ⟨outcome, changes, later, hdoes, hprogress⟩ :=
      exists_does_writeFiles (settings.outputPath surroundings.workingDirectory) files tree
    have hprepares : Prepares surroundings request tree settings graph files := ⟨hs, hg, hmakes⟩
    have hnothing : changes = changes ++ [] := (List.append_nil changes).symm
    rw [hnothing] at hprogress
    cases outcome with
    | error fault =>
      refine ⟨_, _, _, hdoes.bind (.pure _ _), ?_⟩
      rw [failed_append _ (by decide)]
      exact .stopped hd hprepares hprogress
    | ok => exact ⟨_, _, _, hdoes.bind (.pure _ _), .complete hd hprepares hprogress⟩

/-- The end of a run that has loaded its settings. -/
theorem exists_ends_generate (hd : Demand.ofArguments arguments = .run request)
    (hs : settingsIn surroundings request tree = .ok settings) :
    ∃ report changes later,
      Does (generate Recorded.disk surroundings.workingDirectory settings)
          (generate Tree.disk surroundings.workingDirectory settings) tree report changes later ∧
        Ends surroundings arguments tree report changes later := by
  have hlooks := Schema.looks_load graphId settings.loading
    (settings.schemaPath surroundings.workingDirectory)
  rw [generate, generate]
  cases hg : graphIn surroundings settings tree with
  | error failure =>
    have hdoes := hlooks tree
    rw [← graphIn, hg] at hdoes
    refine ⟨_, _, _, hdoes.bind (.pure _ _), ?_⟩
    rw [failed_append _ (by decide)]
    exact .refused hd (.schema hs hg)
  | ok graph =>
    have hdoes := hlooks tree
    rw [← graphIn, hg] at hdoes
    obtain ⟨report, changes, later, hproduces, hends⟩ := exists_ends_produce hd hs hg
    exact ⟨_, _, _, hdoes.bind hproduces, hends⟩

end runs

/-- All or nothing. Whatever the arguments, the surroundings and the tree are, a run on a file tree
ends in one of the ways of `Ends`. Its changes are those on the record of a tree that keeps one, and
lead from the tree that it finds to the one that it leaves. -/
theorem execute_ends (surroundings : Settings.Surroundings) (arguments : List String)
    (tree : Tree) :
    ∃ report changes later,
      Does (execute Recorded.disk surroundings arguments) (execute Tree.disk surroundings arguments)
          tree report changes later ∧
        Ends surroundings arguments tree report changes later := by
  rw [execute, execute]
  cases hd : Demand.ofArguments arguments with
  | help => exact ⟨_, _, _, .pure _ _, .help hd⟩
  | misuse => exact ⟨_, _, _, .pure _ _, .misuse hd⟩
  | run request =>
    have hdoes := Settings.looks_load surroundings request.config tree
    dsimp only
    rw [run, run]
    cases hs : ((Settings.load Tree.disk surroundings request.config).run tree).1 with
    | error failure =>
      have hin : settingsIn surroundings request tree = .error failure := by
        rw [settingsIn, hs]
        rfl
      rw [hs] at hdoes
      exact ⟨_, _, _, hdoes.bind (.pure _ _), .refused hd (.settings hin)⟩
    | ok settings =>
      have hin : settingsIn surroundings request tree = .ok (request.apply settings) := by
        rw [settingsIn, hs]
        rfl
      rw [hs] at hdoes
      obtain ⟨report, changes, later, hgenerates, hends⟩ := exists_ends_generate hd hin
      exact ⟨_, _, _, hdoes.bind hgenerates, hends⟩

end CommandLine

end QuerySurface
