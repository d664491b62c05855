import QuerySurface.Proofs.Files.Writing
import QuerySurface.Proofs.Schema.Outcome
import QuerySurface.Proofs.Traits.Emission

/-!
# Paths of the files of an emission

Every plan with abstractions has its file under the name of its module, and the root stands beside
them as if its module were `mod`. That the modules of plans are different keeps their files
apart, but it does not keep them apart from the root: a node of the module `mod` has the path of
the root. Written below a directory, a file is read back as it was unless a later one leads to
the same place. For nodes without slashes in their names this happens to one file at most, that
of the module `mod`.
-/

namespace QuerySurface.Traits

open Plan (NodePlan Backend generate)
open Schema (Graph SchemaStep Strictness)
open Files (TextFile IsPlain Tree)
open Layout (Scalars)
open Emitted

/-! ## Paths -/

/-- The module whose file would be the root. -/
def rootModule : String :=
  "mod"

/-- The file of a module. -/
def pathOf (name : String) : String :=
  name ++ ".rs"

/-- Different modules have different files. -/
theorem pathOf_injective : Function.Injective pathOf :=
  fun _ _ h => (String.append_left_inj _).mp h

/-- The files of some plans, and the root behind them. -/
theorem filesOf_eq (scalars : Scalars) (plans : List NodePlan) :
    filesOf scalars plans = plans.map (fileOf scalars) ++ [rootFile (modulesOf plans)] :=
  rfl

/-- The paths of all files are those of the modules and of the root. -/
theorem map_path_filesOf (scalars : Scalars) (plans : List NodePlan) :
    (filesOf scalars plans).map TextFile.path = (modulesOf plans ++ [rootModule]).map pathOf := by
  rw [filesOf, List.map_append, List.map_append, List.map_map, modulesOf, List.map_map]
  rfl

/-- The paths of all files are different exactly if no module is that of the root. -/
theorem nodup_map_path_filesOf_iff (scalars : Scalars) {plans : List NodePlan}
    (hn : (modulesOf plans).Nodup) :
    ((filesOf scalars plans).map TextFile.path).Nodup ↔ rootModule ∉ modulesOf plans := by
  rw [map_path_filesOf, List.nodup_map_iff pathOf_injective, List.nodup_append]
  constructor
  · rintro ⟨-, -, hapart⟩ hm
    exact hapart _ hm _ (List.mem_singleton_self _) rfl
  · intro hm
    refine ⟨hn, List.nodup_singleton _, ?_⟩
    rintro name hname _ hroot rfl
    rw [List.mem_singleton.mp hroot] at hname
    exact hm hname

/-- The lower case of a capital is no slash. -/
theorem slash_ne_toLower {c : Char} (h : c.isUpper = true) : '/' ≠ c.toLower := by
  have hcapital : c.val ≥ 'A'.val ∧ c.val ≤ 'Z'.val := of_decide_eq_true h
  intro he
  have hlower : c.toLower = ⟨c.val + ('a'.val - 'A'.val), _⟩ := dif_pos hcapital
  rw [hlower] at he
  have hcode : (47 : UInt32).toNat = (c.val + 32).toNat := congrArg (fun c => c.val.toNat) he
  obtain ⟨hlow, hhigh⟩ := hcapital
  rw [UInt32.toNat_add] at hcode
  simp only [ge_iff_le, UInt32.le_iff_toNat_le, Char.reduceVal, UInt32.reduceToNat]
    at hlow hhigh hcode
  omega

/-- Snake case puts no slash into a name. -/
theorem slash_not_mem_snakeFrom {text : List Char} (h : '/' ∉ text) (afterLower : Bool) :
    '/' ∉ snakeFrom afterLower text := by
  induction text generalizing afterLower with
  | nil => simp [snakeFrom]
  | cons c rest ih =>
    rw [List.mem_cons, not_or] at h
    rw [snakeFrom]
    split
    case isTrue hu =>
      cases afterLower <;> simp [slash_ne_toLower hu, ih h.2]
    case isFalse =>
      split
      · simp [ih h.2]
      · simp [h.1, ih h.2]

/-- The file of a module without slashes is a plain name. -/
theorem isPlain_pathOf {name : String} (h : '/' ∉ name.toList) : IsPlain (pathOf name) := by
  have hlist : (pathOf name).toList = name.toList ++ ['.', 'r', 's'] := by
    simp [pathOf]
  have hlength : 3 ≤ (pathOf name).toList.length := by
    simp [hlist]
  refine ⟨?_, ?_, ?_, ?_⟩
  · simp [hlist, h]
  all_goals
    intro he
    rw [he] at hlength
    exact absurd hlength (by decide)

/-- The file of a node without slashes in its name has a plain name. -/
theorem isPlain_path_fileOf (scalars : Scalars) {plan : NodePlan} (h : '/' ∉ plan.node.toList) :
    IsPlain (fileOf scalars plan).path := by
  apply isPlain_pathOf
  rw [moduleOf, snakeCase, String.toList_ofList]
  exact slash_not_mem_snakeFrom h false

/-! ## Files that were written -/

/-- Some files are those of an emission: of plans that were all emitted, or of a build. -/
inductive Yields (scalars : Scalars) : List NodePlan → List TextFile → Prop where
  /-- Plans were emitted without a failure. -/
  | emitted {plans : List NodePlan} {emitted : Emitted}
      (done : (backend scalars).emitAll (backend scalars).initial plans = .ok emitted) :
      Yields scalars plans ((backend scalars).finish emitted)
  /-- A graph was built under a layout with these scalars. -/
  | built {graph : Graph} {layout : Layout} {plans : List NodePlan} {files : List TextFile}
      (same : layout.scalars = scalars) (generated : generate graph layout = .ok plans)
      (done : (backend layout.scalars).build graph layout = .ok files) :
      Yields scalars plans files

/-- The files of an emission are those of its plans with abstractions, whose modules are
different. -/
theorem Yields.eq_filesOf {scalars : Scalars} {plans : List NodePlan} {files : List TextFile}
    (h : Yields scalars plans files) :
    (modulesOf (written plans)).Nodup ∧ files = filesOf scalars (written plans) := by
  cases h with
  | emitted hdone =>
    obtain ⟨hn, rfl⟩ := (emitAll_eq_ok_iff scalars).mp hdone
    exact ⟨hn, finish_ofPlans scalars _⟩
  | @built graph layout _ _ hsame hgenerated hdone =>
    subst hsame
    have hc : layout.check = .ok () := by
      cases hcheck : layout.check with
      | ok _ => rfl
      | error failure =>
        rw [generate, hcheck] at hgenerated
        cases hgenerated
    rw [Plan.generate_eq hc] at hgenerated
    obtain rfl := Except.ok.inj hgenerated
    have hb := built_build graph layout
    rw [hdone] at hb
    cases hb with
    | complete _ hapart => exact ⟨hapart, rfl⟩

/-- The paths of the files of plans whose modules are different are different. -/
theorem nodup_map_path_fileOf (scalars : Scalars) {plans : List NodePlan}
    (hn : (modulesOf plans).Nodup) : ((plans.map (fileOf scalars)).map TextFile.path).Nodup := by
  have hpaths : (plans.map (fileOf scalars)).map TextFile.path = (modulesOf plans).map pathOf := by
    rw [List.map_map, modulesOf, List.map_map]
    rfl
  rw [hpaths]
  exact hn.map pathOf_injective

/-- Without slashes in the names of the nodes, a disk holds the root that was written last, and
every file that does not have the path of the root. -/
theorem holds_filesOf {scalars : Scalars} {plans : List NodePlan} (hn : (modulesOf plans).Nodup)
    (hs : ∀ plan ∈ plans, '/' ∉ plan.node.toList) {directory : String} {tree later : Tree}
    (hw : Tree.Wrote directory tree (filesOf scalars plans) later) {file : TextFile}
    (hf : file ∈ filesOf scalars plans)
    (hr : file = rootFile (modulesOf plans) ∨ file.path ≠ (rootFile (modulesOf plans)).path) :
    later.Holds directory file := by
  have hplain : ∀ file ∈ plans.map (fileOf scalars) ++ [rootFile (modulesOf plans)],
      IsPlain file.path := by
    intro file hm
    rcases List.mem_append.mp hm with hm | hm
    · obtain ⟨plan, hp, rfl⟩ := List.mem_map.mp hm
      exact isPlain_path_fileOf scalars (hs plan hp)
    · have hroot : IsPlain (pathOf rootModule) := isPlain_pathOf (by decide)
      rwa [List.mem_singleton.mp hm]
  rw [filesOf_eq] at hw hf
  rcases hr with rfl | hr
  · exact hw.holds_of_isPlain (hplain _ (by simp)) (by simp)
  · rcases List.mem_append.mp hf with hm | hm
    · exact hw.holds_of_nodup hplain (nodup_map_path_fileOf scalars hn) hm (Ne.symm hr)
    · exact absurd (congrArg TextFile.path (List.mem_singleton.mp hm)) hr

/-- How the files of some plans are kept apart. -/
structure Apart (scalars : Scalars) (plans : List NodePlan) (files : List TextFile) : Prop where
  /-- Every plan with abstractions has its file, and the root is behind them. -/
  files_eq : files = (written plans).map (fileOf scalars) ++ [rootFile (modulesOf (written plans))]
  /-- The files of plans have different paths. -/
  nodes : (((written plans).map (fileOf scalars)).map TextFile.path).Nodup
  /-- All files have different paths exactly if no plan with abstractions has the module of the
  root. -/
  paths : (files.map TextFile.path).Nodup ↔ rootModule ∉ modulesOf (written plans)
  /-- Once they were written, a disk holds every file with no later one that leads to the same
  place. -/
  held : ∀ directory tree later,
    (Tree.disk.writeFiles directory files).run tree = (.ok (), later) →
      ∀ front file back, files = front ++ file :: back →
        (∀ other ∈ back, ¬later.SamePlace directory other file) → later.Holds directory file
  /-- If no name of a node holds a slash, it holds the root and every file that does not have the
  path of the root. -/
  heldPlain : (∀ plan ∈ written plans, '/' ∉ plan.node.toList) → ∀ directory tree later,
    (Tree.disk.writeFiles directory files).run tree = (.ok (), later) →
      ∀ file ∈ files, file = rootFile (modulesOf (written plans)) ∨
        file.path ≠ (rootFile (modulesOf (written plans))).path → later.Holds directory file

/-- The files of every emission that succeeds are kept apart: those of plans from each other, and
all but that of a module `mod` from the root. What was written below a directory is there,
except where a later file leads to the same place. -/
theorem apart_of_yields {scalars : Scalars} {plans : List NodePlan} {files : List TextFile}
    (h : Yields scalars plans files) : Apart scalars plans files := by
  obtain ⟨hn, rfl⟩ := h.eq_filesOf
  refine ⟨rfl, nodup_map_path_fileOf scalars hn, nodup_map_path_filesOf_iff scalars hn, ?_, ?_⟩
  · intro directory tree later hrun front file back hfiles hback
    obtain ⟨made, hw⟩ := Tree.wrote_of_writeFiles hrun
    rw [hfiles] at hw
    exact hw.holds hback
  · intro hs directory tree later hrun file hf hr
    obtain ⟨made, hw⟩ := Tree.wrote_of_writeFiles hrun
    exact holds_filesOf hn hs hw hf hr

/-- A schema with a node of the module of the root. -/
def modSteps : List SchemaStep :=
  [.node "Dog" .object [], .node "Mod" .object []]

/-- A tree that holds nothing but a directory with some files. -/
def outTree (files : List (String × String)) : Tree :=
  ⟨(["out"], .directory) :: files.map fun file => (["out", file.1], .file file.2.toUTF8)⟩

/-- Of three files, the last two under one path, the first and the last remain. -/
theorem run_writeFiles_mod (dog mod root : String) :
    (Tree.disk.writeFiles "out" [⟨"dog.rs", dog⟩, ⟨"mod.rs", mod⟩, ⟨"mod.rs", root⟩]).run .empty =
      (.ok (), outTree [("dog.rs", dog), ("mod.rs", root)]) := by
  have hmade : (Tree.disk.makeDirectories "out").run .empty = (.ok (), outTree []) := rfl
  have hdog : (outTree []).write (Files.join "out" "dog.rs") dog.toUTF8 =
      .ok (outTree [("dog.rs", dog)]) := rfl
  have hmod : (outTree [("dog.rs", dog)]).write (Files.join "out" "mod.rs") mod.toUTF8 =
      .ok (outTree [("dog.rs", dog), ("mod.rs", mod)]) := rfl
  have hroot : (outTree [("dog.rs", dog), ("mod.rs", mod)]).write (Files.join "out" "mod.rs")
      root.toUTF8 = .ok (outTree [("dog.rs", dog), ("mod.rs", root)]) := rfl
  simp only [Tree.run_writeFiles, Tree.run_writeEach_cons, hmade, hdog, hmod, hroot]
  rfl

/-- The schema with the node `Mod` can be built, the law holds of its files, and they can be
written: what remains are the file of the other node and the root. -/
theorem apart_of_yields_mod :
    ∃ graph plans dog mod root tree, Graph.build ⟨0⟩ .strict modSteps = .ok graph ∧
      generate graph .usual = .ok plans ∧
      (backend Layout.usual.scalars).build graph .usual = .ok [dog, mod, root] ∧
      Apart Layout.usual.scalars plans [dog, mod, root] ∧
      (Tree.disk.writeFiles "out" [dog, mod, root]).run .empty = (.ok (), tree) ∧
      tree.Holds "out" dog ∧ tree.Holds "out" root := by
  obtain ⟨graph, plans, dog, mod, root, hb, hg, hd⟩ : ∃ graph plans dog mod root,
      Graph.build ⟨0⟩ .strict modSteps = .ok graph ∧ generate graph .usual = .ok plans ∧
        (backend Layout.usual.scalars).build graph .usual =
          .ok [⟨"dog.rs", dog⟩, ⟨"mod.rs", mod⟩, ⟨"mod.rs", root⟩] :=
    ⟨_, _, _, _, _, rfl, rfl, rfl⟩
  have hdog : (outTree [("dog.rs", dog), ("mod.rs", root)]).read (Files.join "out" "dog.rs") =
      .ok dog.toUTF8 := rfl
  have hroot : (outTree [("dog.rs", dog), ("mod.rs", root)]).read (Files.join "out" "mod.rs") =
      .ok root.toUTF8 := rfl
  exact ⟨graph, plans, _, _, _, _, hb, hg, hd, apart_of_yields (.built rfl hg hd),
    run_writeFiles_mod dog mod root, hdog, hroot⟩

/-- The paths of the files of a build are not always different: the node `Mod` has the path of the
root. -/
theorem not_nodup_paths_of_build :
    ¬∀ (id : Schema.GraphId) (strictness : Strictness) (steps : List SchemaStep) (graph : Graph)
      (layout : Layout) (files : List TextFile),
      Graph.build id strictness steps = .ok graph → layout.check = .ok () →
        (backend layout.scalars).build graph layout = .ok files →
          (files.map TextFile.path).Nodup := by
  intro h
  obtain ⟨graph, files, hb, hd, hp⟩ : ∃ graph files,
      Graph.build ⟨0⟩ .strict modSteps = .ok graph ∧
        (backend Layout.usual.scalars).build graph .usual = .ok files ∧
        files.map TextFile.path = ["dog.rs", "mod.rs", "mod.rs"] :=
    ⟨_, _, rfl, rfl, rfl⟩
  have hn := h _ _ _ graph .usual files hb rfl hd
  rw [hp] at hn
  exact absurd hn (by decide)

end QuerySurface.Traits
