import QuerySurface.Proofs.Files.Listing
import QuerySurface.Proofs.Schema.Malformed
import QuerySurface.Schema.Disk

/-!
# Schemas in directories

A schema that is loaded from a directory is made of all files below it that have a wanted extension.
The disk lists them in some order, and loading takes them in the order of their paths, so what
comes of it is one outcome for all listings: that there is no document, the failure of the first
document that cannot be read, or what is built from all documents in this order.
-/

namespace QuerySurface

open Files

/-- A file tree as a disk that lists the files below a directory in an order of its own. -/
def Files.Tree.relisted (list : Tree → String → List String) : Disk (StateM Tree) :=
  { Tree.disk with filesBelow := fun path => return list (← get) path }

namespace Schema

/-- The documents below a directory, in the order of their paths. -/
structure DocumentsBelow (tree : Tree) (extensions : List String) (path : String)
    (files : List String) : Prop where
  /-- They are the files with one of the extensions, in this very spelling. -/
  mem_iff : ∀ file, file ∈ files ↔
    file ∈ tree.filesBelow path ∧ ∃ extension ∈ extensions, HasExtension file extension
  /-- Each comes before those behind it. -/
  ascending : Ascending files

/-- The document that a file of a tree holds, or why there is none. -/
def documentAt (tree : Tree) (file : String) : Outcome Document :=
  documentOf file ((Tree.disk.readText file).run tree).1

/-- What comes of loading the documents of a directory from its files, one after the other. -/
inductive LoadsFrom (tree : Tree) (id : GraphId) (settings : LoadSettings) (path : String) :
    List String → Outcome Graph → Prop where
  /-- There is no document. -/
  | nothing :
    LoadsFrom tree id settings path [] (.error (.schema path "no schema documents found"))
  /-- A file cannot be read or decoded, and those in front of it can. -/
  | stopped {front back : List String} {file : String} {failure : Failure}
      (earlier : ∀ other ∈ front, ∃ document, documentAt tree other = .ok document)
      (failed : documentAt tree file = .error failure) :
    LoadsFrom tree id settings path (front ++ file :: back) (.error failure)
  /-- All files are documents, and a graph is built from them. -/
  | loaded {files : List String} {documents : List Document} (found : files ≠ [])
      (each : List.Forall₂ (fun file document => documentAt tree file = .ok document) files
        documents) :
    LoadsFrom tree id settings path files (Graph.ofDocuments id settings documents)

variable {tree : Tree} {path : String} {list : Tree → String → List String}

/-! ## Files -/

/-- Whatever the order of a listing is, the documents are taken in the order of their paths. -/
theorem documentsBelow_documentFiles (h : tree.Proper) (extensions : List String)
    {listing : List String} (hl : listing.Perm (tree.filesBelow path)) :
    DocumentsBelow tree extensions path (documentFiles extensions listing) where
  mem_iff file := by
    have hwanted : (extension? file).any extensions.contains = true ↔
        ∃ extension ∈ extensions, HasExtension file extension := by
      simp only [Option.any_eq_true, List.contains_iff_mem, extension?_eq_some_iff]
      exact exists_congr fun _ => and_comm
    rw [documentFiles, (sorted_perm _).mem_iff, List.mem_filter, hl.mem_iff, hwanted]
  ascending := by
    refine ascending_sorted (List.Nodup.sublist (List.filter_sublist.map names) ?_)
    exact (hl.map names).nodup_iff.mpr (h.nodup_names_filesBelow path)

/-- A directory has its documents in one order. -/
theorem DocumentsBelow.eq {extensions files others : List String}
    (h : DocumentsBelow tree extensions path files)
    (ho : DocumentsBelow tree extensions path others) : files = others :=
  h.ascending.eq_of_mem_iff ho.ascending fun file => (h.mem_iff file).trans (ho.mem_iff file).symm

/-! ## Reading -/

/-- Reading documents leaves the tree as it is and stops at the first failure. -/
theorem run_readDocuments (files : List String) :
    (readDocuments (Tree.relisted list) files).run tree = (files.mapM (documentAt tree), tree) := by
  induction files with
  | nil => rfl
  | cons file rest ih =>
    have hread : ((Tree.relisted list).readText file).run tree =
        (((Tree.disk.readText file).run tree).1, tree) := (looks_readText file tree).plain_eq
    rw [readDocuments, List.mapM_cons, StateT.run_bind, hread, documentAt]
    dsimp only [bind, pure, Except.bind]
    cases documentOf file ((Tree.disk.readText file).run tree).1 with
    | error failure => rfl
    | ok document =>
      change (readDocuments (Tree.relisted list) rest >>= _).run tree = _
      rw [StateT.run_bind, ih]
      cases rest.mapM (documentAt tree) <;> rfl

/-- Loading from a directory lists its files, reads the documents among them in order, and builds
the graph; the tree stays as it is. -/
theorem run_load (id : GraphId) (settings : LoadSettings) (hd : tree.isDirectory path = true) :
    (Graph.load (Tree.relisted list) id settings path).run tree =
      (if documentFiles settings.extensions (list tree path) = [] then
          .error (.schema path "no schema documents found")
        else
          (documentFiles settings.extensions (list tree path)).mapM (documentAt tree) >>=
            Graph.ofDocuments id settings,
        tree) := by
  have hasks : ((Tree.relisted list).isDirectory path).run tree = (true, tree) := by
    rw [← hd]
    rfl
  rw [Graph.load, StateT.run_bind, hasks]
  -- The question whether the path is a directory, and the listing, are answered.
  change (if (documentFiles settings.extensions (list tree path)).isEmpty = true then _
    else readDocuments (Tree.relisted list)
      (documentFiles settings.extensions (list tree path)) >>= _).run tree = _
  cases documentFiles settings.extensions (list tree path) with
  | nil => rfl
  | cons file rest =>
    rw [List.isEmpty_cons, if_neg Bool.false_ne_true, if_neg (List.cons_ne_nil file rest),
      StateT.run_bind, run_readDocuments]
    cases (file :: rest).mapM (documentAt tree) <;> rfl

/-! ## What comes of it -/

/-- Files are all documents, or there is a first one that is none. -/
theorem documents_or_failure (tree : Tree) (files : List String) :
    (∃ documents,
      List.Forall₂ (fun file document => documentAt tree file = .ok document) files documents) ∨
    ∃ front file back failure, files = front ++ file :: back ∧
      (∀ other ∈ front, ∃ document, documentAt tree other = .ok document) ∧
      documentAt tree file = .error failure := by
  induction files with
  | nil => exact .inl ⟨[], .nil⟩
  | cons file rest ih =>
    cases hfile : documentAt tree file with
    | error failure => exact .inr ⟨[], file, rest, failure, rfl, List.forall_mem_nil _, hfile⟩
    | ok document =>
      obtain ⟨documents, heach⟩ | ⟨front, other, back, failure, rfl, hfront, hother⟩ := ih
      · exact .inl ⟨document :: documents, .cons hfile heach⟩
      · exact .inr ⟨file :: front, other, back, failure, rfl,
          List.forall_mem_cons.mpr ⟨⟨document, hfile⟩, hfront⟩, hother⟩

/-- Files that are all documents are read as these. -/
theorem mapM_documentAt_of_forall₂ {files : List String} {documents : List Document}
    (heach : List.Forall₂ (fun file document => documentAt tree file = .ok document) files
      documents) : files.mapM (documentAt tree) = .ok documents := by
  induction heach with
  | nil => rfl
  | cons hfile _ ih =>
    rw [List.mapM_cons, hfile, ih]
    rfl

/-- The failure of the first file that is no document is that of reading all files. -/
theorem mapM_documentAt_of_error {front back : List String} {file : String} {failure : Failure}
    (hearlier : ∀ other ∈ front, ∃ document, documentAt tree other = .ok document)
    (hfailed : documentAt tree file = .error failure) :
    (front ++ file :: back).mapM (documentAt tree) = .error failure := by
  induction front with
  | nil =>
    rw [List.nil_append, List.mapM_cons, hfailed]
    rfl
  | cons other rest ih =>
    obtain ⟨⟨document, hother⟩, hrest⟩ := List.forall_mem_cons.mp hearlier
    rw [List.cons_append, List.mapM_cons, hother, ih hrest]
    rfl

/-- Something comes of loading from any files. -/
theorem exists_loadsFrom (tree : Tree) (id : GraphId) (settings : LoadSettings) (path : String)
    (files : List String) : ∃ outcome, LoadsFrom tree id settings path files outcome := by
  by_cases hnone : files = []
  · exact hnone ▸ ⟨_, .nothing⟩
  · obtain ⟨documents, heach⟩ | ⟨front, file, back, failure, rfl, hfront, hfile⟩ :=
      documents_or_failure tree files
    · exact ⟨_, .loaded hnone heach⟩
    · exact ⟨_, .stopped hfront hfile⟩

section outcomes

variable {id : GraphId} {settings : LoadSettings} {files : List String}
  {outcome other : Outcome Graph}

/-- What comes of loading is what comes of reading the files in order and building a graph. -/
theorem LoadsFrom.eq (h : LoadsFrom tree id settings path files outcome) :
    outcome = if files = [] then .error (.schema path "no schema documents found")
      else files.mapM (documentAt tree) >>= Graph.ofDocuments id settings := by
  cases h with
  | nothing => rfl
  | stopped hearlier hfailed =>
    rw [if_neg (by simp), mapM_documentAt_of_error hearlier hfailed]
    rfl
  | loaded hfound heach =>
    rw [if_neg hfound, mapM_documentAt_of_forall₂ heach]
    rfl

/-- Nothing else comes of loading from the same files. -/
theorem LoadsFrom.unique (h : LoadsFrom tree id settings path files outcome)
    (ho : LoadsFrom tree id settings path files other) : outcome = other :=
  h.eq.trans ho.eq.symm

end outcomes

/-- A file that is no document is not reported as if there were none. -/
theorem documentAt_ne_nothing (tree : Tree) (file path : String) :
    documentAt tree file ≠ .error (.schema path "no schema documents found") := by
  rw [documentAt, documentOf.eq_def]
  split
  · nofun
  · split
    · nofun
    · intro h
      simp only [Except.error.injEq, Failure.schema.injEq] at h
      have hhead := congrArg (·.toList.head?) h.2
      simp at hhead

/-- Documents of which no graph is built are not reported as if there were none. -/
theorem ofDocuments_ne_nothing (id : GraphId) (settings : LoadSettings) (documents : List Document)
    (path : String) :
    Graph.ofDocuments id settings documents ≠
      .error (.schema path "no schema documents found") := by
  rw [Graph.ofDocuments, firstMalformed_eq]
  cases hf : firstFailure (writtenTypes documents) with
  | none => exact build_ne_schema _ _ _ _ _
  | some failure =>
    obtain ⟨front, written, back, -, -, -, rfl⟩ := firstFailure_eq_some_iff.mp hf
    intro h
    simp only [Except.error.injEq, WrittenType.failure, Failure.schema.injEq] at h
    -- The message of a malformed notation ends in a quote.
    have hlast := congrArg (·.toList.reverse.head?) h.2
    simp at hlast

/-- That there is no document is said exactly if there is none. -/
theorem LoadsFrom.nothing_iff {id : GraphId} {settings : LoadSettings} {files : List String}
    {outcome : Outcome Graph} (h : LoadsFrom tree id settings path files outcome) :
    outcome = .error (.schema path "no schema documents found") ↔ files = [] := by
  cases h with
  | nothing => exact ⟨fun _ => rfl, fun _ => rfl⟩
  | stopped _ hfailed =>
    refine ⟨fun h => ?_, fun h => absurd (List.append_eq_nil_iff.mp h).2 (List.cons_ne_nil _ _)⟩
    obtain rfl := Except.error.inj h
    exact absurd hfailed (documentAt_ne_nothing _ _ _)
  | loaded hfound heach =>
    exact ⟨fun h => absurd h (ofDocuments_ne_nothing _ _ _ _), fun h => absurd h hfound⟩

/-- There are no documents below a directory exactly if no file has one of the extensions. -/
theorem DocumentsBelow.eq_nil_iff {extensions files : List String}
    (h : DocumentsBelow tree extensions path files) :
    files = [] ↔
      ∀ file ∈ tree.filesBelow path, ∀ extension ∈ extensions, ¬HasExtension file extension := by
  rw [List.eq_nil_iff_forall_not_mem]
  simp only [h.mem_iff, not_and, not_exists]

/-- Loading from a directory comes to one outcome, in whatever order its files are listed. It is
that there is no document, exactly if no file below it has one of the extensions in this very
spelling. Else the documents are taken in the order of their paths: the outcome is the failure of
the first one that cannot be read or decoded, and without such a failure it is what is built from
all of them. -/
theorem Graph.load_relisted (id : GraphId) (settings : LoadSettings) (h : tree.Proper)
    (hd : tree.isDirectory path = true) :
    ∃ files outcome,
      DocumentsBelow tree settings.extensions path files ∧
      LoadsFrom tree id settings path files outcome ∧
      (outcome = .error (.schema path "no schema documents found") ↔
        ∀ file ∈ tree.filesBelow path, ∀ extension ∈ settings.extensions,
          ¬HasExtension file extension) ∧
      ∀ list : Tree → String → List String, (list tree path).Perm (tree.filesBelow path) →
        (Graph.load (Tree.relisted list) id settings path).run tree = (outcome, tree) := by
  have hfiles := documentsBelow_documentFiles h settings.extensions (.refl (tree.filesBelow path))
  obtain ⟨outcome, houtcome⟩ := exists_loadsFrom tree id settings path
    (documentFiles settings.extensions (tree.filesBelow path))
  refine ⟨_, outcome, hfiles, houtcome, houtcome.nothing_iff.trans hfiles.eq_nil_iff, ?_⟩
  intro list hl
  rw [run_load id settings hd, (documentsBelow_documentFiles h settings.extensions hl).eq hfiles,
    houtcome.eq]

/-- A tree with a directory of two documents, of which one is no text and the other one no schema,
and of a file whose extension is spelled otherwise. -/
def shelf : Tree :=
  ⟨[ (["schemas"], .directory), (["schemas", "notes.JSON"], .file "later".toUTF8),
     (["schemas", "a-b.json"], .file "[]".toUTF8), (["schemas", "a"], .directory),
     (["schemas", "a", "z.json"], .file ⟨#[255]⟩) ]⟩

/-- The tree was filled from the empty one. -/
theorem proper_shelf : shelf.Proper := by
  have hfilled : Change.makeAll
      [ .directory "schemas", .file "schemas/notes.JSON" "later".toUTF8,
        .file "schemas/a-b.json" "[]".toUTF8, .directory "schemas/a",
        .file "schemas/a/z.json" ⟨#[255]⟩ ] .empty = .ok shelf := rfl
  exact Tree.proper_empty.makeAll hfilled

/-- The documents of the directory are not in the order in which they were put there. -/
theorem documentsBelow_shelf :
    DocumentsBelow shelf ["json"] "schemas" ["schemas/a/z.json", "schemas/a-b.json"] := by
  have hlisted : (shelf.filesBelow "schemas").filter (extension? · = some "json") =
      ["schemas/a-b.json", "schemas/a/z.json"] := by decide +kernel
  have hascending : names "schemas/a/z.json" < names "schemas/a-b.json" := by decide +kernel
  refine ⟨fun file => ?_, List.pairwise_pair.mpr hascending⟩
  have hm : file ∈ ["schemas/a-b.json", "schemas/a/z.json"] ↔
      file ∈ shelf.filesBelow "schemas" ∧ extension? file = some "json" := by
    rw [← hlisted, List.mem_filter, decide_eq_true_iff]
  simp only [← extension?_eq_some_iff, List.mem_singleton, exists_eq_left]
  rw [← hm, List.mem_pair, List.mem_pair, or_comm]

/-- Loading the directory fails at the document that is first in the order of paths, however the
files are listed. -/
theorem load_relisted_shelf :
    shelf.Proper ∧ shelf.isDirectory "schemas" = true ∧
      ∀ listing : List String, listing.Perm (shelf.filesBelow "schemas") →
        (Graph.load (Tree.relisted fun _ _ => listing) ⟨0⟩ .usual "schemas").run shelf =
          (.error (.file .notText), shelf) := by
  have hdirectory : shelf.isDirectory "schemas" = true := by decide +kernel
  refine ⟨proper_shelf, hdirectory, fun listing hl => ?_⟩
  obtain ⟨files, outcome, hfiles, hloads, -, hall⟩ :=
    Graph.load_relisted ⟨0⟩ .usual proper_shelf hdirectory
  obtain rfl := hfiles.eq documentsBelow_shelf
  have hfailed : LoadsFrom shelf ⟨0⟩ .usual "schemas"
      ([] ++ "schemas/a/z.json" :: ["schemas/a-b.json"]) (.error (.file .notText)) :=
    .stopped (List.forall_mem_nil _) rfl
  rw [hall _ hl, hloads.unique hfailed]

end Schema

end QuerySurface
