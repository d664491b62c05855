import QuerySurface.Proofs.Text.Lines
import QuerySurface.Proofs.Text.Names
import QuerySurface.Proofs.Traits.OutputPaths

/-!
# Modules of the root

The root declares a module for every other file of an emission, and the compiler loads each
declared module from the file of its name, where a raw identifier has the name of the word
behind its mark. The declarations are read off the text of the root. They agree with the files,
except for modules named `self`, `super` or `crate`: these words have no raw form, are declared
with an underscore behind them, and are then looked for in another file than their own.
-/

namespace QuerySurface.Traits

open Plan (NodePlan generate)
open Schema (Graph)
open Files (TextFile)
open Layout (Scalars)
open Emitted

/-! ## Declared modules -/

/-- The identifier of the module that a line declares. -/
def declaredBy? (line : List Char) : Option String :=
  match line with
  | 'm' :: 'o' :: 'd' :: ' ' :: rest => (Text.dropLast? ';' rest).map String.ofList
  | _ => none

/-- The identifiers of the modules that a source declares, in order. -/
def declaredModules (source : String) : List String :=
  (Text.lines source.toList).filterMap declaredBy?

/-- The word of an identifier: what stands behind the mark of a raw one. -/
def bareWord (identifier : String) : String :=
  match identifier.toList with
  | 'r' :: '#' :: rest => String.ofList rest
  | _ => identifier

/-- The file that a declared module is loaded from. -/
def loadedFrom (identifier : String) : String :=
  pathOf (bareWord identifier)

/-- A name that is made of word characters. -/
def IsWord (name : String) : Prop :=
  ∀ c ∈ name.toList, Text.isWordChar c = true

/-! ## Module names of identifiers -/

/-- Snake case keeps word characters. -/
theorem isWordChar_of_mem_snakeFrom {text : List Char} (h : ∀ c ∈ text, Text.isWordChar c = true)
    (afterLower : Bool) : ∀ c ∈ snakeFrom afterLower text, Text.isWordChar c = true := by
  have hline : Text.isWordChar '_' = true := by decide
  induction text generalizing afterLower with
  | nil => simp [snakeFrom]
  | cons c rest ih =>
    obtain ⟨hc, hr⟩ := List.forall_mem_cons.mp h
    rw [snakeFrom]
    split
    case isTrue =>
      rw [List.forall_mem_append, List.forall_mem_cons]
      refine ⟨?_, Text.isWordChar_toLower hc, ih hr false⟩
      cases afterLower <;> simp [hline]
    case isFalse =>
      split
      · exact List.forall_mem_cons.mpr ⟨hline, ih hr false⟩
      · exact List.forall_mem_cons.mpr ⟨hc, ih hr _⟩

/-- The module of a node whose name is an identifier has a word as its name. -/
theorem isWord_moduleOf {plan : NodePlan} (h : Text.isIdentifier plan.node.toList = true) :
    IsWord (moduleOf plan) := by
  have hall : plan.node.toList.all Text.isWordChar = true :=
    (Bool.and_eq_true_iff.mp (Bool.and_eq_true_iff.mp h).1).2
  rw [IsWord, moduleOf, snakeCase, String.toList_ofList]
  exact isWordChar_of_mem_snakeFrom (List.all_eq_true.mp hall) false

/-- A word does not hold other characters. -/
theorem IsWord.not_mem {name : String} (h : IsWord name) {c : Char}
    (hc : Text.isWordChar c = false) : c ∉ name.toList := by
  intro hm
  rw [h c hm] at hc
  cases hc

/-! ## Escaped words -/

/-- The word that a module is declared under. -/
def declaredWord (name : String) : String :=
  if name ∈ pathKeywords then name ++ "_" else name

/-- A word is its own bare word. -/
theorem IsWord.bareWord_eq {name : String} (h : IsWord name) : bareWord name = name := by
  unfold bareWord
  split
  case h_1 rest he =>
    have hmark : '#' ∉ name.toList := h.not_mem (by decide)
    rw [he] at hmark
    simp at hmark
  case h_2 => rfl

/-- Escaping makes at most a raw identifier of the word that a module is declared under. -/
theorem bareWord_escapeKeyword {name : String} (h : IsWord name) :
    bareWord (escapeKeyword name) = declaredWord name := by
  unfold escapeKeyword declaredWord
  by_cases hp : name ∈ pathKeywords
  · have hbare : ∀ word ∈ pathKeywords, bareWord (word ++ "_") = word ++ "_" := by decide
    rw [if_pos (List.contains_iff_mem.mpr hp), if_pos hp, hbare name hp]
  · rw [if_neg (by simpa using hp), if_neg hp]
    split
    · simp [bareWord]
    · exact h.bareWord_eq

/-- The file that an escaped word is loaded from. -/
theorem loadedFrom_escapeKeyword {name : String} (h : IsWord name) :
    loadedFrom (escapeKeyword name) = pathOf (declaredWord name) := by
  rw [loadedFrom, bareWord_escapeKeyword h]

/-- Two words are declared under one word if they are the same, or one has no raw form and the
other is what it is declared under. -/
theorem declaredWord_eq_iff {name other : String} :
    declaredWord name = declaredWord other ↔
      name = other ∨ (name ∈ pathKeywords ∧ other = name ++ "_") ∨
        (other ∈ pathKeywords ∧ name = other ++ "_") := by
  have hplain : ∀ word ∈ pathKeywords, word ++ "_" ∉ pathKeywords := by decide
  have hapart : ∀ word ∈ pathKeywords, ∀ last ∈ pathKeywords,
      word ++ "_" = last ++ "_" → word = last := by decide
  unfold declaredWord
  by_cases hn : name ∈ pathKeywords
  · by_cases ho : other ∈ pathKeywords
    · rw [if_pos hn, if_pos ho]
      grind
    · rw [if_pos hn, if_neg ho]
      grind
  · by_cases ho : other ∈ pathKeywords
    · rw [if_neg hn, if_pos ho]
      grind
    · rw [if_neg hn, if_neg ho]
      grind

/-- Words without a raw form are declared under words that need none. -/
theorem escapeKeyword_append_of_mem {name : String} (h : name ∈ pathKeywords) :
    escapeKeyword (name ++ "_") = escapeKeyword name := by
  revert name
  decide

/-- Words are escaped alike if they are declared under one word. -/
theorem escapeKeyword_eq_iff {name other : String} (hn : IsWord name) (ho : IsWord other) :
    escapeKeyword name = escapeKeyword other ↔ declaredWord name = declaredWord other := by
  constructor
  · intro he
    rw [← bareWord_escapeKeyword hn, ← bareWord_escapeKeyword ho, he]
  · intro he
    rcases declaredWord_eq_iff.mp he with rfl | ⟨hp, rfl⟩ | ⟨hp, rfl⟩
    · rfl
    · exact (escapeKeyword_append_of_mem hp).symm
    · exact escapeKeyword_append_of_mem hp

/-! ## The root -/

/-- A line holds no line break. -/
def Unbroken (line : Line) : Prop :=
  '\n' ∉ line.text.toList ∧ '\r' ∉ line.text.toList

/-- A source of lines without line breaks has these lines. -/
theorem lines_sourceText {lines : List Line} (h : ∀ line ∈ lines, Unbroken line) :
    Text.lines (sourceText lines).toList = lines.map fun line => line.text.toList := by
  have htext : (sourceText lines).toList =
      (lines.map fun line => line.text.toList).flatMap (· ++ ['\n']) := by
    rw [sourceText, String.toList_join, List.flatMap_map, List.flatMap_map]
    simp
  rw [htext, Text.lines_flatMap_concat]
  intro text ht
  obtain ⟨line, hl, rfl⟩ := List.mem_map.mp ht
  exact h line hl

/-- A line of code around an escaped word holds no line break, if what stands around it holds
none. -/
theorem unbroken_around {name : String} (h : IsWord name) {front back : String}
    (hf : Unbroken (.code front)) (hb : Unbroken (.code back)) :
    Unbroken (.code (front ++ escapeKeyword name ++ back)) := by
  have hescaped : ∀ c, Text.isWordChar c = false → c ≠ '#' → c ∉ (escapeKeyword name).toList := by
    intro c hc hmark
    have hname := h.not_mem hc
    have hline : c ≠ '_' ∧ c ≠ 'r' := by
      constructor
      · rintro rfl
        cases hc
      · rintro rfl
        cases hc
    unfold escapeKeyword
    split
    · simp [hname, hline]
    · split
      · simp [hname, hline, hmark]
      · exact hname
  have hn := hescaped '\n' (by decide) (by decide)
  have hr := hescaped '\r' (by decide) (by decide)
  unfold Unbroken at hf hb ⊢
  simp only [Line.text, String.toList_append, List.mem_append, not_or] at hf hb ⊢
  exact ⟨⟨⟨hf.1, hn⟩, hb.1⟩, ⟨hf.2, hr⟩, hb.2⟩

/-- No line of the root of some words holds a line break. -/
theorem unbroken_rootLines {modules : List String} (h : ∀ name ∈ modules, IsWord name) :
    ∀ line ∈ rootLines modules, Unbroken line := by
  have hopening : ∀ line ∈ rootLines [] ++ [.code ""],
      '\n' ∉ line.text.toList ∧ '\r' ∉ line.text.toList := by
    decide
  have hpieces : ∀ piece ∈ ["mod ", ";", "pub use ", "::*;"], Unbroken (.code piece) := by
    unfold Unbroken
    decide
  have hgap : ∀ line ∈ (if modules.isEmpty then [] else [.code ""]), Unbroken line := by
    intro line hl
    split at hl
    · cases hl
    · exact hopening line (List.mem_append_right _ hl)
  rw [rootLines_eq]
  simp only [List.forall_mem_append, List.forall_mem_map]
  refine ⟨⟨⟨?_, ?_⟩, hgap⟩, ?_⟩
  · exact fun line hl => hopening line (List.mem_append_left _ hl)
  · exact fun name hn =>
      unbroken_around (h name hn) (hpieces "mod " (by decide)) (hpieces ";" (by decide))
  · exact fun name hn =>
      unbroken_around (h name hn) (hpieces "pub use " (by decide)) (hpieces "::*;" (by decide))

/-- The line that declares a module does so. -/
theorem declaredBy?_declaration (name : String) :
    declaredBy? (declaration name).toList = some (escapeKeyword name) := by
  have hl : (declaration name).toList =
      'm' :: 'o' :: 'd' :: ' ' :: ((escapeKeyword name).toList ++ [';']) := by
    simp [declaration]
  rw [hl]
  simp [declaredBy?, Text.dropLast?]

/-- The line that re-exports a module declares none. -/
theorem declaredBy?_reexport (name : String) :
    declaredBy? (reexport name).toList = Option.none := by
  have hl : (reexport name).toList =
      'p' :: 'u' :: 'b' :: ' ' :: 'u' :: 's' :: 'e' :: ' ' ::
        ((escapeKeyword name).toList ++ [':', ':', '*', ';']) := by
    simp [reexport]
  rw [hl]
  rfl

/-- The root of some words declares the escaped words, in order, and nothing else. -/
theorem declaredModules_rootFile {modules : List String} (h : ∀ name ∈ modules, IsWord name) :
    declaredModules (rootFile modules).contents = modules.map escapeKeyword := by
  have hopening : (rootLines [] ++ [Line.code ""]).filterMap
      (fun line => declaredBy? line.text.toList) = [] := by
    decide
  rw [List.filterMap_append, List.append_eq_nil_iff] at hopening
  have hgap : (if modules.isEmpty then [] else [Line.code ""]).filterMap
      (fun line => declaredBy? line.text.toList) = [] := by
    split
    · rfl
    · exact hopening.2
  rw [declaredModules, rootFile, lines_sourceText (unbroken_rootLines h), List.filterMap_map,
    rootLines_eq]
  simp only [List.filterMap_append, Function.comp_def, List.filterMap_map, hopening.1, hgap,
    Line.text_code, declaredBy?_declaration, declaredBy?_reexport]
  simp

/-! ## Agreement of declarations and files -/

/-- How the modules that a root declares agree with the files beside it. -/
structure Declares (modules : List String) (files : List TextFile) (root : TextFile) : Prop where
  /-- The files are those of the modules, in order. -/
  paths : files.map TextFile.path = modules.map pathOf
  /-- No two modules have one name. -/
  apart : modules.Nodup
  /-- The root stands where the compiler looks for it. -/
  root_path : root.path = pathOf rootModule
  /-- The root declares the escaped names of the modules, in order, and nothing else. -/
  declared : declaredModules root.contents = modules.map escapeKeyword
  /-- A module whose name has a raw form, or needs none, is loaded from its own file. -/
  loaded : ∀ name ∈ modules, name ∉ pathKeywords → loadedFrom (escapeKeyword name) = pathOf name
  /-- The declared identifiers are different exactly if no module is named like a word without a
  raw form and another like that word with an underscore. -/
  distinct : (declaredModules root.contents).Nodup ↔
    ∀ word ∈ pathKeywords, word ∈ modules → word ++ "_" ∉ modules
  /-- Every declared module is loaded from one of the files exactly if there is such another module
  for every word without a raw form that is a module. -/
  resolved : (∀ identifier ∈ declaredModules root.contents,
      loadedFrom identifier ∈ files.map TextFile.path) ↔
    ∀ word ∈ pathKeywords, word ∈ modules → word ++ "_" ∈ modules
  /-- Every file is that of a declared module exactly if no module is a word without a raw form. -/
  reached : (∀ file ∈ files, ∃ identifier ∈ declaredModules root.contents,
      loadedFrom identifier = file.path) ↔
    ∀ word ∈ pathKeywords, word ∉ modules
  /-- Declarations and files correspond one to one, in order, under the same condition. -/
  agree : (declaredModules root.contents).map loadedFrom = files.map TextFile.path ↔
    ∀ word ∈ pathKeywords, word ∉ modules

section Words

variable {modules : List String}

/-- A word that is declared under itself has a raw form or needs none. -/
theorem declaredWord_eq_self_iff {name : String} :
    declaredWord name = name ↔ name ∉ pathKeywords := by
  have hlonger : ∀ word ∈ pathKeywords, word ++ "_" ≠ word := by decide
  unfold declaredWord
  by_cases h : name ∈ pathKeywords
  · simp [h, hlonger name h]
  · simp [h]

/-- The escaped names of different modules are different unless one of them is a word without a raw
form and another is what it is declared under. -/
theorem nodup_map_escapeKeyword_iff (hw : ∀ name ∈ modules, IsWord name) (hn : modules.Nodup) :
    (modules.map escapeKeyword).Nodup ↔
      ∀ word ∈ pathKeywords, word ∈ modules → word ++ "_" ∉ modules := by
  rw [List.nodup_map_iff_inj_on hn]
  constructor
  · intro h word hp hm hu
    have he := h _ hu word hm (escapeKeyword_append_of_mem hp)
    exact (declaredWord_eq_self_iff.mp (by rw [declaredWord, if_pos hp, he])) hp
  · intro h name hm other ho he
    rw [escapeKeyword_eq_iff (hw name hm) (hw other ho)] at he
    rcases declaredWord_eq_iff.mp he with rfl | ⟨hp, rfl⟩ | ⟨hp, rfl⟩
    · rfl
    · exact absurd ho (h name hp hm)
    · exact absurd hm (h other hp ho)

/-- Every word that modules are declared under is a module exactly if those without a raw form are
with an underscore too. -/
theorem forall_declaredWord_mem_iff :
    (∀ name ∈ modules, declaredWord name ∈ modules) ↔
      ∀ word ∈ pathKeywords, word ∈ modules → word ++ "_" ∈ modules := by
  constructor
  · intro h word hp hm
    have hd := h word hm
    rwa [declaredWord, if_pos hp] at hd
  · intro h name hm
    by_cases hp : name ∈ pathKeywords
    · rw [declaredWord, if_pos hp]
      exact h name hp hm
    · rwa [declaredWord_eq_self_iff.mpr hp]

/-- Every module is one that a module is declared under exactly if all have a raw form or need
none. -/
theorem forall_exists_declaredWord_iff :
    (∀ name ∈ modules, ∃ other ∈ modules, declaredWord other = name) ↔
      ∀ word ∈ pathKeywords, word ∉ modules := by
  constructor
  · intro h word hp hm
    obtain ⟨other, -, ho⟩ := h word hm
    have hunderscored : ∀ last ∈ pathKeywords, last ++ "_" ∉ pathKeywords := by decide
    unfold declaredWord at ho
    split at ho
    case isTrue hother => exact hunderscored other hother (ho ▸ hp)
    case isFalse hother => exact hother (ho ▸ hp)
  · intro h name hm
    exact ⟨name, hm, declaredWord_eq_self_iff.mpr fun hp => h name hp hm⟩

/-- The root of some words, and files that have the paths of these modules. -/
theorem declares_rootFile (hw : ∀ name ∈ modules, IsWord name) (hn : modules.Nodup)
    {files : List TextFile} (hp : files.map TextFile.path = modules.map pathOf) :
    Declares modules files (rootFile modules) := by
  have hd := declaredModules_rootFile hw
  have hloaded : (modules.map escapeKeyword).map loadedFrom =
      (modules.map declaredWord).map pathOf := by
    rw [List.map_map, List.map_map]
    exact List.map_congr_left fun name hm => loadedFrom_escapeKeyword (hw name hm)
  refine
    { paths := hp
      apart := hn
      root_path := rfl
      declared := hd
      loaded := ?_
      distinct := by rw [hd, nodup_map_escapeKeyword_iff hw hn]
      resolved := ?_
      reached := ?_
      agree := ?_ }
  · intro name hm hk
    rw [loadedFrom_escapeKeyword (hw name hm), declaredWord_eq_self_iff.mpr hk]
  · rw [hd, hp, ← forall_declaredWord_mem_iff, List.forall_mem_map]
    refine forall₂_congr fun name hm => ?_
    rw [loadedFrom_escapeKeyword (hw name hm), List.mem_map_of_injective pathOf_injective]
  · rw [← forall_exists_declaredWord_iff]
    have hfiles : (∀ file ∈ files, ∃ identifier ∈ modules.map escapeKeyword,
        loadedFrom identifier = file.path) ↔
        ∀ path ∈ files.map TextFile.path, ∃ identifier ∈ modules.map escapeKeyword,
          loadedFrom identifier = path := by
      rw [List.forall_mem_map]
    rw [hd, hfiles, hp, List.forall_mem_map]
    refine forall₂_congr fun name _ => ?_
    constructor
    · rintro ⟨_, hi, he⟩
      obtain ⟨other, ho, rfl⟩ := List.mem_map.mp hi
      rw [loadedFrom_escapeKeyword (hw other ho)] at he
      exact ⟨other, ho, pathOf_injective he⟩
    · rintro ⟨other, ho, rfl⟩
      exact ⟨_, List.mem_map_of_mem ho, loadedFrom_escapeKeyword (hw other ho)⟩
  · have hself :
        modules.map declaredWord = modules ↔ ∀ name ∈ modules, declaredWord name = name := by
      conv_lhs => rw [← List.map_id modules, List.map_map]
      exact List.map_inj_left
    rw [hd, hp, hloaded, (List.map_injective_iff.mpr pathOf_injective).eq_iff, hself]
    constructor
    · intro h word hk hm
      exact declaredWord_eq_self_iff.mp (h word hm) hk
    · intro h name hm
      exact declaredWord_eq_self_iff.mpr fun hk => h name hk hm

end Words

/-- The modules that the root of a build declares. For every graph whose nodes are named by
identifiers and every layout under which it can be built, the root stands behind the files of the
plans with abstractions. It declares their modules, escaped and in order. Each of them is loaded
from its own file, except for those named by words without a raw form; and the declared
identifiers are different, all of them lead to files of the build, and all files are declared,
exactly as far as such words allow. -/
theorem declares_of_build {graph : Graph} {layout : Layout} {files : List TextFile}
    (hn : ∀ node ∈ graph.nodes, Text.isIdentifier node.name.toList = true)
    (hd : (backend layout.scalars).build graph layout = .ok files) :
    ∃ plans nodes root, generate graph layout = .ok plans ∧ files = nodes ++ [root] ∧
      nodes = (written plans).map (fileOf layout.scalars) ∧
      Declares (modulesOf (written plans)) nodes root := by
  have hb := built_build graph layout
  rw [hd] at hb
  cases hb with
  | complete haccepted hapart =>
    refine ⟨_, _, _, Plan.generate_eq haccepted, filesOf_eq _ _, rfl,
      declares_rootFile ?_ hapart ?_⟩
    · intro name hm
      obtain ⟨plan, hp, rfl⟩ := List.mem_map.mp hm
      have hw := (List.mem_filter.mp hp).1
      rw [Plan.wantedPlans_eq_map] at hw
      obtain ⟨node, hg, rfl⟩ := List.mem_map.mp hw
      exact isWord_moduleOf (hn node hg)
    · rw [List.map_map, modulesOf, List.map_map]
      rfl

/-- A schema with a node that is named like a word without a raw form. -/
def superSteps : List Schema.SchemaStep :=
  [.node "Dog" .object [], .node "Super" .object [], .node "Type" .object []]

/-- The schema with the node `Super` can be built, and the law of modules holds of its files. -/
theorem declares_of_build_super :
    ∃ graph files, Graph.build ⟨0⟩ .strict superSteps = .ok graph ∧
      (∀ node ∈ graph.nodes, Text.isIdentifier node.name.toList = true) ∧
      (backend Layout.usual.scalars).build graph .usual = .ok files ∧
      ∃ plans nodes root, generate graph .usual = .ok plans ∧ files = nodes ++ [root] ∧
        nodes = (written plans).map (fileOf Layout.usual.scalars) ∧
        Declares (modulesOf (written plans)) nodes root := by
  obtain ⟨graph, files, hb, hn, hd⟩ : ∃ graph files,
      Graph.build ⟨0⟩ .strict superSteps = .ok graph ∧
        (∀ node ∈ graph.nodes, Text.isIdentifier node.name.toList = true) ∧
        (backend Layout.usual.scalars).build graph .usual = .ok files :=
    ⟨_, _, rfl, by decide, rfl⟩
  exact ⟨graph, files, hb, hn, hd, declares_of_build hn hd⟩

/-- Declared modules and files do not always agree: the module of the node `Super` is declared as
`super_`, and its file is `super.rs`. -/
theorem not_resolved_of_build :
    ¬∀ (graph : Graph) (layout : Layout) (nodes : List TextFile) (root : TextFile),
      (∀ node ∈ graph.nodes, Text.isIdentifier node.name.toList = true) →
        (backend layout.scalars).build graph layout = .ok (nodes ++ [root]) →
          (declaredModules root.contents).Nodup ∧
            (∀ identifier ∈ declaredModules root.contents,
              loadedFrom identifier ∈ nodes.map TextFile.path) ∧
            ∀ file ∈ nodes, ∃ identifier ∈ declaredModules root.contents,
              loadedFrom identifier = file.path := by
  intro h
  obtain ⟨graph, dog, super, type, -, hn, hd⟩ : ∃ graph dog super type,
      Graph.build ⟨0⟩ .strict superSteps = .ok graph ∧
        (∀ node ∈ graph.nodes, Text.isIdentifier node.name.toList = true) ∧
        (backend Layout.usual.scalars).build graph .usual =
          .ok ([⟨"dog.rs", dog⟩, ⟨"super.rs", super⟩, ⟨"type.rs", type⟩] ++
            [rootFile ["dog", "super", "type"]]) :=
    ⟨_, _, _, _, rfl, by decide, rfl⟩
  have hall : ["dog", "super", "type"].all (·.toList.all Text.isWordChar) = true := by decide
  have hw : ∀ name ∈ ["dog", "super", "type"], IsWord name := fun name hm =>
    List.all_eq_true.mp (List.all_eq_true.mp hall name hm)
  obtain ⟨-, hresolved, -⟩ := h graph .usual _ _ hn hd
  rw [declaredModules_rootFile hw] at hresolved
  have hsuper : loadedFrom "super_" ∈ ["dog.rs", "super.rs", "type.rs"] :=
    hresolved "super_" (by decide)
  exact absurd hsuper (by decide)

end QuerySurface.Traits
