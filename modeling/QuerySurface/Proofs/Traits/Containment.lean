import QuerySurface.Proofs.Files.Confinement
import QuerySurface.Proofs.Schema.Merging
import QuerySurface.Proofs.Traits.OutputPaths

/-!
# Files inside the output directory

The path of a file is made of the name of a type, and the name of a type is any text that a
document gives: types are referred to by identifiers, but they are declared under any name.
Snake case neither takes slashes away nor puts any in, so a file has the path of a plain name
exactly if there is no slash in the name of its type. Without slashes in the names of types
with abstractions, whatever is written below a directory stays directly inside it. A type
`../Dog` leads out of it.
-/

namespace QuerySurface.Traits

open Plan (NodePlan Backend generate)
open Catalog (names)
open Schema (Graph Document LoadSettings typeNames)
open Files (TextFile IsPlain Tree)
open Layout (Scalars)
open Emitted

/-! ## Slashes in paths -/

/-- Snake case keeps every slash of a name. -/
theorem slash_mem_snakeFrom {text : List Char} (h : '/' ∈ text) (afterLower : Bool) :
    '/' ∈ snakeFrom afterLower text := by
  induction text generalizing afterLower with
  | nil => cases h
  | cons c rest ih =>
    rcases List.mem_cons.mp h with rfl | hr
    · have hstays : snakeFrom afterLower ('/' :: rest) = '/' :: snakeFrom false rest := rfl
      rw [hstays]
      exact List.mem_cons_self
    · rw [snakeFrom]
      split
      case isTrue => simp [ih hr]
      case isFalse =>
        split
        · simp [ih hr]
        · simp [ih hr]

/-- The file of a plan has a plain name exactly if there is no slash in the name of the node. -/
theorem isPlain_path_fileOf_iff (scalars : Scalars) {plan : NodePlan} :
    IsPlain (fileOf scalars plan).path ↔ '/' ∉ plan.node.toList := by
  refine ⟨fun hplain hslash => ?_, isPlain_path_fileOf scalars⟩
  have hpath : (fileOf scalars plan).path.toList =
      snakeFrom false plan.node.toList ++ ".rs".toList := by
    simp [fileOf, moduleOf, snakeCase]
  apply hplain.slash
  rw [hpath]
  exact List.mem_append_left _ (slash_mem_snakeFrom hslash false)

/-- The root has a plain name. -/
theorem isPlain_path_rootFile (modules : List String) : IsPlain (rootFile modules).path := by
  have hroot : IsPlain (pathOf rootModule) := isPlain_pathOf (by decide)
  exact hroot

/-! ## Names of types -/

/-- Nodes that have a plan with abstractions are declared as types by the documents. -/
theorem mem_typeNames_of_mem_written {id : Schema.GraphId} {settings : LoadSettings}
    {documents : List Document} {graph : Graph}
    (h : Graph.ofDocuments id settings documents = .ok graph) (layout : Layout) {plan : NodePlan}
    (hp : plan ∈ written (Plan.wantedPlans graph layout)) : plan.node ∈ typeNames documents := by
  obtain ⟨hp, hwritten⟩ := List.mem_filter.mp hp
  rw [Plan.wantedPlans_eq_map] at hp
  obtain ⟨node, hn, rfl⟩ := List.mem_map.mp hp
  obtain ⟨rest, hnodes, hnames⟩ := Schema.nodes_of_ofDocuments h
  rw [hnodes] at hn
  rcases List.mem_append.mp hn with hblank | hrest
  · -- A scalar that no document declares has no abstractions.
    obtain ⟨slot, name, rfl⟩ : ∃ slot name, node = .blank id slot name .scalar := by
      obtain ⟨slot, hslot, he⟩ := List.mem_mapIdx.mp hblank
      exact ⟨slot, _, he.symm⟩
    cases hwritten
  · have hm : node.name ∈ names rest := List.mem_map_of_mem hrest
    rw [hnames, List.mem_eraseDups] at hm
    exact hm

/-! ## Files of a build -/

/-- Where the files of some plans stand, whatever directory they are written to. -/
structure Contained (scalars : Scalars) (documents : List Document) (plans : List NodePlan)
    (files : List TextFile) : Prop where
  /-- Every file is the root, or that of a plan; the file of a plan has a plain name exactly if
  there is no slash in the name of the node. -/
  plain : ∀ file ∈ files, (file = rootFile (modulesOf (written plans)) ∧ IsPlain file.path) ∨
    ∃ plan ∈ written plans, file = fileOf scalars plan ∧
      (IsPlain file.path ↔ '/' ∉ plan.node.toList)
  /-- The plans with files are those of types that the documents declare. -/
  declared : ∀ plan ∈ written plans, plan.node ∈ typeNames documents
  /-- Every plan with abstractions has its file. -/
  all : ∀ plan ∈ written plans, fileOf scalars plan ∈ files
  /-- If there is no slash in the names of these nodes, all files are written directly inside the
  directory and nowhere else, also where a fault ends the writing. -/
  confined : (∀ plan ∈ written plans, '/' ∉ plan.node.toList) → ∀ directory tree outcome later,
    (Tree.disk.writeFiles directory files).run tree = (outcome, later) →
      Tree.Confined directory files tree later

/-- The files of a build stay inside their directory exactly as far as the names of types have no
slashes. -/
theorem contained_of_build {id : Schema.GraphId} {settings : LoadSettings}
    {documents : List Document} {graph : Graph} {layout : Layout} {files : List TextFile}
    (h : Graph.ofDocuments id settings documents = .ok graph)
    (hd : (backend layout.scalars).build graph layout = .ok files) :
    ∃ plans, generate graph layout = .ok plans ∧
      Contained layout.scalars documents plans files := by
  have hbuilt := built_build graph layout
  rw [hd] at hbuilt
  cases hbuilt with
  | complete haccepted _ =>
    have hplain : ∀ file ∈ filesOf layout.scalars (written (Plan.wantedPlans graph layout)),
        (file = rootFile (modulesOf (written (Plan.wantedPlans graph layout))) ∧
            IsPlain file.path) ∨
          ∃ plan ∈ written (Plan.wantedPlans graph layout), file = fileOf layout.scalars plan ∧
            (IsPlain file.path ↔ '/' ∉ plan.node.toList) := by
      intro file hf
      rw [filesOf_eq] at hf
      rcases List.mem_append.mp hf with hm | hm
      · obtain ⟨plan, hp, rfl⟩ := List.mem_map.mp hm
        exact .inr ⟨plan, hp, rfl, isPlain_path_fileOf_iff _⟩
      · rw [List.mem_singleton.mp hm]
        exact .inl ⟨rfl, isPlain_path_rootFile _⟩
    refine ⟨_, Plan.generate_eq haccepted, hplain, fun plan hp => ?_, fun plan hp => ?_, ?_⟩
    · exact mem_typeNames_of_mem_written h layout hp
    · rw [filesOf_eq]
      exact List.mem_append_left _ (List.mem_map_of_mem hp)
    · intro hslash directory tree outcome later hrun
      refine Tree.confined_writeFiles (fun file hf => ?_) hrun
      rcases hplain file hf with ⟨-, hroot⟩ | ⟨plan, hp, -, hiff⟩
      · exact hroot
      · exact hiff.mpr (hslash plan hp)

/-- A document of an interface and an object. -/
def animalDocument : Document :=
  { roots := .none
    types :=
      [ ⟨"Animal", .interface, [], [], [], [], [⟨"name", "String", [], [], []⟩]⟩,
        ⟨"Dog", .object, [], ["Animal"], [], [], [⟨"name", "String", [], [], []⟩]⟩ ] }

/-- The files of the interface, the object and the root stay inside any directory. -/
theorem contained_of_build_animals :
    ∃ graph files, Graph.ofDocuments ⟨0⟩ .usual [animalDocument] = .ok graph ∧
      (backend Layout.usual.scalars).build graph .usual = .ok files ∧
      files.map TextFile.path = ["animal.rs", "dog.rs", "mod.rs"] ∧
      ∀ directory tree outcome later,
        (Tree.disk.writeFiles directory files).run tree = (outcome, later) →
          Tree.Confined directory files tree later := by
  obtain ⟨graph, files, h, hd, hpaths⟩ : ∃ graph files,
      Graph.ofDocuments ⟨0⟩ .usual [animalDocument] = .ok graph ∧
        (backend Layout.usual.scalars).build graph .usual = .ok files ∧
        files.map TextFile.path = ["animal.rs", "dog.rs", "mod.rs"] :=
    ⟨_, _, rfl, rfl, rfl⟩
  refine ⟨graph, files, h, hd, hpaths, ?_⟩
  obtain ⟨plans, -, hcontained⟩ := contained_of_build h hd
  apply hcontained.confined
  intro plan hp hslash
  have hm := hcontained.declared plan hp
  have hnone : ∀ name ∈ typeNames [animalDocument], '/' ∉ name.toList := by decide
  exact hnone _ hm hslash

/-- A document of a type whose name leads out of a directory. -/
def strayDocument : Document :=
  { roots := .none
    types := [⟨"../Dog", .object, [], [], [], [], []⟩] }

/-- The first of two files leads out of the directory. -/
theorem run_writeFiles_stray (dog root : String) :
    (Tree.disk.writeFiles "out" [⟨"../dog.rs", dog⟩, ⟨"mod.rs", root⟩]).run .empty =
      (.ok (), ⟨[(["out"], .directory), (["dog.rs"], .file dog.toUTF8),
        (["out", "mod.rs"], .file root.toUTF8)]⟩) := by
  have hmade : (Tree.disk.makeDirectories "out").run .empty =
      (.ok (), ⟨[(["out"], .directory)]⟩) := rfl
  have hdog : Tree.write ⟨[(["out"], .directory)]⟩ (Files.join "out" "../dog.rs") dog.toUTF8 =
      .ok ⟨[(["out"], .directory), (["dog.rs"], .file dog.toUTF8)]⟩ := rfl
  have hroot : Tree.write ⟨[(["out"], .directory), (["dog.rs"], .file dog.toUTF8)]⟩
      (Files.join "out" "mod.rs") root.toUTF8 =
        .ok ⟨[(["out"], .directory), (["dog.rs"], .file dog.toUTF8),
          (["out", "mod.rs"], .file root.toUTF8)]⟩ := rfl
  simp only [Tree.run_writeFiles, Tree.run_writeEach_cons, hmade, hdog, hroot]
  rfl

/-- Files do not always stay inside the output directory: the document of `../Dog` is loaded, its
files are built under the usual layout, and written to `out` the first of them stands beside
`out`. -/
theorem not_confined_of_build :
    ∃ graph files later bytes, Graph.ofDocuments ⟨0⟩ .usual [strayDocument] = .ok graph ∧
      Layout.usual.check = .ok () ∧
      (backend Layout.usual.scalars).build graph .usual = .ok files ∧
      (∃ file ∈ files, ¬IsPlain file.path) ∧
      (Tree.disk.writeFiles "out" files).run .empty = (.ok (), later) ∧
      later.at? ["dog.rs"] = some (.file bytes) ∧
      ¬Tree.Confined "out" files .empty later := by
  obtain ⟨graph, dog, root, h, hd⟩ : ∃ graph dog root,
      Graph.ofDocuments ⟨0⟩ .usual [strayDocument] = .ok graph ∧
        (backend Layout.usual.scalars).build graph .usual =
          .ok [⟨"../dog.rs", dog⟩, ⟨"mod.rs", root⟩] :=
    ⟨_, _, _, rfl, rfl⟩
  have hstray : ¬IsPlain "../dog.rs" := fun hplain => hplain.slash (by decide)
  refine ⟨graph, _, _, dog.toUTF8, h, rfl, hd, ⟨_, List.mem_cons_self, hstray⟩,
    run_writeFiles_stray dog root, rfl, fun hconfined => ?_⟩
  -- The directory leads to `out`, and the file does not stand below it.
  rcases hconfined.created ["dog.rs"] dog.toUTF8 rfl with he | ⟨base, hb, file, -, hplace, -⟩
  · cases he
  · have hout : base = ["out"] := (Except.ok.inj hb).symm
    rw [hout] at hplace
    simp at hplace

end QuerySurface.Traits
