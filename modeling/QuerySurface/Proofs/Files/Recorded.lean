import QuerySurface.Proofs.Files.Confinement
import Mathlib.Data.List.TakeWhile

/-!
# Changes of a tree, on record

A file tree can keep a record of what was done to it. What a computation does to a disk is then told
by the changes that it adds to the record: made one after the other they lead from the tree that
it found to the one that it leaves, and a computation that only looks at the disk adds none.
Writing files below a directory makes the directory and those above it where they are missing,
outermost first, and then writes the files in order; where a fault ends it, the changes so far are
a first part of these.
-/

namespace QuerySurface.Files

/-! ## Changes -/

/-- A change of a file tree. -/
inductive Change where
  /-- A directory is made. -/
  | directory (path : String)
  /-- A file is made or replaced. -/
  | file (path : String) (bytes : ByteArray)

namespace Change

/-- The tree after a change. -/
def make : Change → Tree → Except Fault Tree
  | .directory path, tree => tree.makeDirectory path
  | .file path bytes, tree => tree.write path bytes

/-- The tree after changes, one after the other. -/
def makeAll : List Change → Tree → Except Fault Tree
  | [], tree => .ok tree
  | change :: rest, tree =>
    match change.make tree with
    | .ok between => makeAll rest between
    | .error fault => .error fault

/-- A file is written below a directory. -/
def ofFile (directory : String) (file : TextFile) : Change :=
  .file (join directory file.path) file.contents.toUTF8

/-- Changes made after other changes. -/
theorem makeAll_append {changes others : List Change} {tree between later : Tree}
    (h : makeAll changes tree = .ok between) (ho : makeAll others between = .ok later) :
    makeAll (changes ++ others) tree = .ok later := by
  induction changes generalizing tree with
  | nil =>
    obtain rfl := Except.ok.inj h
    exact ho
  | cons change rest ih =>
    rw [List.cons_append, makeAll]
    rw [makeAll] at h
    split at h
    · exact ih h
    · cases h

/-- One change. -/
theorem makeAll_singleton {change : Change} {tree later : Tree}
    (h : change.make tree = .ok later) : makeAll [change] tree = .ok later := by
  rw [makeAll, h]
  rfl

end Change

/-! ## Records -/

/-- A file tree with a record of what was done to it. -/
structure Recorded where
  /-- The tree. -/
  tree : Tree
  /-- The changes, in order. -/
  changes : List Change

namespace Recorded

/-- Makes a change and puts it on record. A change that fails is not made. -/
def change (change : Change) : StateM Recorded (Except Fault Unit) := do
  let recorded ← get
  match change.make recorded.tree with
  | .ok later =>
    set (⟨later, recorded.changes ++ [change]⟩ : Recorded)
    return .ok ()
  | .error fault => return .error fault

/-- A file tree with a record, as a disk. -/
def disk : Disk (StateM Recorded) where
  isDirectory path := return (← get).tree.isDirectory path
  isFile path := return (← get).tree.isFile path
  filesBelow path := return (← get).tree.filesBelow path
  read path := return (← get).tree.read path
  makeDirectory path := change (.directory path)
  write path bytes := change (.file path bytes)

end Recorded

/-! ## What computations do -/

/-- What a computation does to a tree: it leads to another tree by way of some changes and yields a
value, with a record and without. -/
structure Does {α : Type} (recording : StateM Recorded α) (plain : StateM Tree α) (tree : Tree)
    (value : α) (changes : List Change) (later : Tree) : Prop where
  /-- Without a record. -/
  plain_eq : plain.run tree = (value, later)
  /-- With a record, to which the changes are added. -/
  recording_eq : ∀ before, recording.run ⟨tree, before⟩ = (value, ⟨later, before ++ changes⟩)
  /-- The changes lead from one tree to the other. -/
  made : Change.makeAll changes tree = .ok later

/-- A computation that changes no tree. -/
def Looks {α : Type} (recording : StateM Recorded α) (plain : StateM Tree α) : Prop :=
  ∀ tree, Does recording plain tree (plain.run tree).1 [] tree

section does

variable {α β : Type} {recording : StateM Recorded α} {plain : StateM Tree α}
  {recordingNext : α → StateM Recorded β} {plainNext : α → StateM Tree β}
  {tree between later : Tree} {value : α} {changes : List Change}

/-- Nothing is done. -/
theorem Does.pure (value : α) (tree : Tree) :
    Does (pure value) (pure value) tree value [] tree where
  plain_eq := rfl
  recording_eq before := by
    rw [List.append_nil]
    rfl
  made := rfl

/-- One computation after another. -/
theorem Does.bind (h : Does recording plain tree value changes between) {result : β}
    {others : List Change}
    (hn : Does (recordingNext value) (plainNext value) between result others later) :
    Does (recording >>= recordingNext) (plain >>= plainNext) tree result (changes ++ others)
      later where
  plain_eq := by
    rw [StateT.run_bind, h.plain_eq]
    exact hn.plain_eq
  recording_eq before := by
    rw [StateT.run_bind, h.recording_eq, ← List.append_assoc]
    exact hn.recording_eq _
  made := Change.makeAll_append h.made hn.made

/-- What comes after a look at the tree. -/
theorem Does.bind_looks (h : Looks recording plain) {result : β}
    (hn : Does (recordingNext (plain.run tree).1) (plainNext (plain.run tree).1) tree result changes
      later) : Does (recording >>= recordingNext) (plain >>= plainNext) tree result changes later :=
  (h tree).bind hn

/-- A value is known without looking. -/
theorem Looks.pure (value : α) : Looks (Pure.pure value) (Pure.pure value) :=
  fun tree => .pure value tree

/-- One look after another. -/
theorem Looks.bind (h : Looks recording plain)
    (hn : ∀ value, Looks (recordingNext value) (plainNext value)) :
    Looks (recording >>= recordingNext) (plain >>= plainNext) := by
  intro tree
  have hrun : (plain >>= plainNext).run tree = (plainNext (plain.run tree).1).run tree := by
    rw [StateT.run_bind, (h tree).plain_eq]
    rfl
  rw [hrun]
  exact .bind_looks h (hn _ tree)

/-- What is read off a tree is read off the tree with a record. -/
theorem looks_of_eq (look : Tree → α) :
    Looks (return look (← get).tree) (return look (← get)) := by
  intro tree
  refine ⟨rfl, fun before => ?_, rfl⟩
  rw [List.append_nil]
  rfl

end does

/-- Asking for a directory. -/
theorem looks_isDirectory (path : String) :
    Looks (Recorded.disk.isDirectory path) (Tree.disk.isDirectory path) :=
  looks_of_eq fun tree => tree.isDirectory path

/-- Asking for a file. -/
theorem looks_isFile (path : String) :
    Looks (Recorded.disk.isFile path) (Tree.disk.isFile path) :=
  looks_of_eq fun tree => tree.isFile path

/-- Listing files. -/
theorem looks_filesBelow (path : String) :
    Looks (Recorded.disk.filesBelow path) (Tree.disk.filesBelow path) :=
  looks_of_eq fun tree => tree.filesBelow path

/-- Reading a file. -/
theorem looks_read (path : String) : Looks (Recorded.disk.read path) (Tree.disk.read path) :=
  looks_of_eq fun tree => tree.read path

/-- Reading a text file. -/
theorem looks_readText (path : String) :
    Looks (Recorded.disk.readText path) (Tree.disk.readText path) := by
  refine (looks_read path).bind fun outcome => ?_
  cases outcome <;> exact .pure _

/-- A change that succeeds is put on record. -/
theorem does_change {change : Change} {tree later : Tree} (h : change.make tree = .ok later) :
    Does (Recorded.change change) (Tree.change change.make) tree (.ok ()) [change] later where
  plain_eq := by rw [Tree.run_change, h]
  recording_eq before := by
    rw [Recorded.change, StateT.run_bind, StateT.run_get]
    simp only [pure_bind, h]
    rfl
  made := Change.makeAll_singleton h

/-- A change that fails is not made. -/
theorem does_not_change {change : Change} {tree : Tree} {fault : Fault}
    (h : change.make tree = .error fault) :
    Does (Recorded.change change) (Tree.change change.make) tree (.error fault) [] tree where
  plain_eq := by rw [Tree.run_change, h]
  recording_eq before := by
    rw [Recorded.change, StateT.run_bind, StateT.run_get, List.append_nil]
    simp only [pure_bind, h]
    rfl
  made := rfl

/-! ## Directories that are made -/

/-- Slashes at the end of a path say nothing. -/
theorem names_append_slashes (path : String) (count : Nat) :
    names (path ++ String.ofList (List.replicate count '/')) = names path := by
  induction count with
  | zero => simp
  | succ count ih =>
    have hsplit : path ++ String.ofList (List.replicate (count + 1) '/') =
        path ++ String.ofList (List.replicate count '/') ++ "/" ++ "" := by
      rw [← String.toList_inj]
      simp [List.replicate_succ']
    rw [hsplit, names_append_slash, ih]
    simp [names, Text.splitOn]

/-- A path is what it is without the slashes at its end, and these. -/
theorem exists_withoutSlash (path : String) :
    ∃ count, path = Tree.withoutSlash path ++ String.ofList (List.replicate count '/') := by
  rw [Tree.withoutSlash]
  split
  · exact ⟨0, by simp⟩
  · have hslashes : path.toList.reverse.takeWhile (· == '/') =
        List.replicate (path.toList.reverse.takeWhile (· == '/')).length '/' :=
      List.eq_replicate_iff.mpr ⟨rfl, fun c hc => by simpa using List.mem_takeWhile_imp hc⟩
    refine ⟨(path.toList.reverse.takeWhile (· == '/')).length, ?_⟩
    rw [← String.toList_inj, String.toList_append, String.toList_ofList, String.toList_ofList,
      ← List.reverse_inj, List.reverse_append, List.reverse_reverse, List.reverse_replicate,
      ← hslashes, List.takeWhile_append_dropWhile]

/-- A directory that was made is there. -/
theorem isDirectory_of_makeDirectory {tree later : Tree} {path : String}
    (h : tree.makeDirectory path = .ok later) : later.isDirectory path = true := by
  have hkept : tree.KeepsDirectories later := fun place hd =>
    (Tree.addsDirectories_of_makeDirectory h).kept place .directory hd
  rw [Tree.makeDirectory] at h
  split at h
  · cases h
  · rename_i place hl
    split at h
    · cases h
    · rename_i hfree
      obtain rfl := Except.ok.inj h
      have hp : place ≠ [] := by
        rintro rfl
        simp [Tree.at?] at hfree
      obtain ⟨hz, he, hf, -⟩ := Tree.locate_eq_ok_iff.mp hl
      obtain ⟨count, hpath⟩ := exists_withoutSlash path
      have hat : (tree.put place .directory).at? place = some .directory := by
        rw [Tree.at?_put _ hp, if_pos rfl]
      have hlocate : (tree.put place .directory).locate path = .ok place := by
        refine Tree.locate_eq_ok_iff.mpr ⟨?_, ?_, ?_, fun _ => hat⟩
        · rw [hpath, String.toList_append, List.any_append, hz, String.toList_ofList,
            List.any_replicate]
          split <;> rfl
        · have hne : Tree.withoutSlash path ≠ "" := by simpa using he
          rw [hpath]
          simp [hne]
        · rw [hpath, names_append_slashes]
          exact hkept.follow hf
      rw [Tree.isDirectory, Tree.entry?, hlocate]
      dsimp only
      rw [hat]

/-- How making a directory and those above it ends. -/
inductive Directs (paths : List String) (later : Tree) : Except Fault Unit → Prop where
  /-- The directory is there, unless there is no name for it. -/
  | stands (there : ∀ path ∈ paths.head?, path = "" ∨ later.isDirectory path = true) :
    Directs paths later (.ok ())
  /-- One of the directories cannot be made. -/
  | fault {path : String} {fault : Fault} (mem : path ∈ paths)
      (fails : later.makeDirectory path = .error fault) : Directs paths later (.error fault)

/-- A directory that cannot be made is there already, or that is a fault. -/
theorem directs_of_error {path : String} {above : List String} {tree : Tree} {fault : Fault}
    (h : tree.makeDirectory path = .error fault) :
    Directs (path :: above) tree (if tree.isDirectory path then .ok () else .error fault) := by
  cases hd : tree.isDirectory path with
  | true =>
    refine .stands fun other ho => .inr ?_
    rwa [← Option.some.inj ho]
  | false => exact .fault List.mem_cons_self h

/-- Asking, behind a directory that cannot be made, whether it is there. -/
theorem does_settle (path : String) (fault : Fault) (tree : Tree) :
    Does (do return if ← Recorded.disk.isDirectory path then Except.ok () else .error fault)
      (do return if ← Tree.disk.isDirectory path then Except.ok () else .error fault) tree
      (if tree.isDirectory path then .ok () else .error fault) [] tree :=
  .bind_looks (looks_isDirectory path) (.pure _ tree)

/-- Making a directory. -/
theorem does_makeDirectory {path : String} {tree later : Tree}
    (h : tree.makeDirectory path = .ok later) :
    Does (Recorded.disk.makeDirectory path) (Tree.disk.makeDirectory path) tree (.ok ())
      [.directory path] later :=
  does_change h

/-- Failing to make a directory. -/
theorem does_not_makeDirectory {path : String} {tree : Tree} {fault : Fault}
    (h : tree.makeDirectory path = .error fault) :
    Does (Recorded.disk.makeDirectory path) (Tree.disk.makeDirectory path) tree (.error fault)
      [] tree :=
  does_not_change h

/-- Making a directory and those above it. -/
theorem exists_does_makeFrom (paths : List String) (tree : Tree) :
    ∃ outcome changes later,
      Does (Recorded.disk.makeFrom paths) (Tree.disk.makeFrom paths) tree outcome changes later ∧
        changes.Sublist (paths.reverse.map .directory) ∧ Directs paths later outcome := by
  induction paths generalizing tree with
  | nil => exact ⟨_, _, _, .pure _ _, .refl _, .stands (by simp)⟩
  | cons path above ih =>
    have hmap : (path :: above).reverse.map Change.directory =
        above.reverse.map .directory ++ [.directory path] := by simp
    have hmade : ∀ {tree later : Tree}, tree.makeDirectory path = .ok later →
        Directs (path :: above) later (.ok ()) := by
      intro tree later hm
      refine .stands fun other ho => .inr ?_
      rw [← Option.some.inj ho]
      exact isDirectory_of_makeDirectory hm
    rw [Disk.makeFrom, Disk.makeFrom, hmap]
    by_cases he : path.isEmpty = true
    · rw [if_pos he, if_pos he]
      refine ⟨_, _, _, .pure _ _, List.nil_sublist _, .stands fun other ho => .inl ?_⟩
      rw [← Option.some.inj ho]
      simpa using he
    rw [if_neg he, if_neg he]
    cases hm : tree.makeDirectory path with
    | ok later =>
      exact ⟨_, _, _, (does_makeDirectory hm).bind (.pure _ _), List.sublist_append_right _ _,
        hmade hm⟩
    | error fault =>
      have hfails := does_not_makeDirectory hm
      cases fault
      case missing =>
        -- The directories above are made first, and then this one is tried again.
        obtain ⟨outcome, changes, between, hdoes, horder, hdirects⟩ := ih tree
        cases hdirects with
        | fault hmem hstops =>
          refine ⟨_, _, _, hfails.bind (hdoes.bind (.pure _ _)), ?_, .fault (.tail _ hmem) hstops⟩
          rw [List.nil_append, List.append_nil]
          exact horder.trans (List.sublist_append_left _ _)
        | stands =>
          cases hagain : between.makeDirectory path with
          | ok later =>
            refine ⟨_, _, _, hfails.bind (hdoes.bind ((does_makeDirectory hagain).bind
              (.pure _ _))), ?_, hmade hagain⟩
            exact horder.append (.refl _)
          | error fault =>
            refine ⟨_, _, _, hfails.bind (hdoes.bind ((does_not_makeDirectory hagain).bind
              (does_settle path fault between))), ?_, directs_of_error hagain⟩
            rw [List.nil_append, List.append_nil, List.append_nil]
            exact horder.trans (List.sublist_append_left _ _)
      all_goals
        exact ⟨_, _, _, hfails.bind (does_settle path _ tree), List.nil_sublist _,
          directs_of_error hm⟩

/-! ## Files that are written -/

/-- A directory with those above it, nearest first. -/
def directoryChain (directory : String) : List String :=
  directory :: (withAncestors directory).drop 1

/-- A directory was made, with those above it where they were missing, outermost first. -/
structure Directed (directory : String) (tree : Tree) (made : List Change) (later : Tree) :
    Prop where
  /-- Each directory was made at most once. -/
  order : made.Sublist ((directoryChain directory).reverse.map .directory)
  /-- Making them leads from one tree to the other. -/
  led : Change.makeAll made tree = .ok later
  /-- The directory is there, unless there is no name for it. -/
  there : directory = "" ∨ later.isDirectory directory = true

/-- How far writing files below a directory comes. -/
inductive Progress (directory : String) (files : List TextFile) (tree : Tree) :
    Except Fault Unit → List Change → Tree → Prop where
  /-- One of the directories cannot be made, perhaps after some above it were. -/
  | undirected {path : String} {fault : Fault} {made : List Change} {later : Tree}
      (order : made.Sublist ((directoryChain directory).reverse.map .directory))
      (led : Change.makeAll made tree = .ok later) (mem : path ∈ directoryChain directory)
      (fails : later.makeDirectory path = .error fault) :
      Progress directory files tree (.error fault) made later
  /-- The directory is made and some of the files are written; the next one cannot be. -/
  | interrupted {made : List Change} {between later : Tree} {done rest : List TextFile}
      {file : TextFile} {fault : Fault} (directed : Directed directory tree made between)
      (split : files = done ++ file :: rest)
      (written : Change.makeAll (done.map (Change.ofFile directory)) between = .ok later)
      (fails : (Change.ofFile directory file).make later = .error fault) :
      Progress directory files tree (.error fault)
        (made ++ done.map (Change.ofFile directory)) later
  /-- The directory is made and all files are written. -/
  | complete {made : List Change} {between later : Tree}
      (directed : Directed directory tree made between)
      (written : Change.makeAll (files.map (Change.ofFile directory)) between = .ok later) :
      Progress directory files tree (.ok ()) (made ++ files.map (Change.ofFile directory)) later

/-- How writing files ends: some are written, and the next one cannot be, if there is one. -/
inductive Writes (directory : String) (files : List TextFile) (later : Tree) :
    Except Fault Unit → List TextFile → Prop where
  /-- All files are written. -/
  | all : Writes directory files later (.ok ()) files
  /-- A file cannot be written. -/
  | some {done rest : List TextFile} {file : TextFile} {fault : Fault}
      (split : files = done ++ file :: rest)
      (fails : (Change.ofFile directory file).make later = .error fault) :
      Writes directory files later (.error fault) done

/-- Writing files, in order. -/
theorem exists_does_writeEach (directory : String) (files : List TextFile) (tree : Tree) :
    ∃ outcome done later,
      Does (Recorded.disk.writeEach directory files) (Tree.disk.writeEach directory files) tree
          outcome (done.map (Change.ofFile directory)) later ∧
        Writes directory files later outcome done := by
  induction files generalizing tree with
  | nil => exact ⟨_, [], _, .pure _ _, .all⟩
  | cons file rest ih =>
    rw [Disk.writeEach, Disk.writeEach]
    cases hw : (Change.ofFile directory file).make tree with
    | error fault => exact ⟨_, [], _, (does_not_change hw).bind (.pure _ _), .some rfl hw⟩
    | ok between =>
      obtain ⟨outcome, done, later, hdoes, hwrites⟩ := ih between
      refine ⟨outcome, file :: done, later, (does_change hw).bind hdoes, ?_⟩
      cases hwrites with
      | all => exact .all
      | some hsplit hfails => exact .some (by rw [hsplit, List.cons_append]) hfails

/-- Writing files below a directory, which is made if it is missing. -/
theorem exists_does_writeFiles (directory : String) (files : List TextFile) (tree : Tree) :
    ∃ outcome changes later,
      Does (Recorded.disk.writeFiles directory files) (Tree.disk.writeFiles directory files) tree
          outcome changes later ∧
        Progress directory files tree outcome changes later := by
  obtain ⟨outcome, made, between, hmade, horder, hdirects⟩ :=
    exists_does_makeFrom (directoryChain directory) tree
  rw [Disk.writeFiles, Disk.writeFiles]
  cases hdirects with
  | fault hmem hfails =>
    refine ⟨_, _, _, Does.bind hmade (.pure _ _), ?_⟩
    rw [List.append_nil]
    exact .undirected horder hmade.made hmem hfails
  | stands hthere =>
    obtain ⟨outcome, done, later, hdoes, hwrites⟩ := exists_does_writeEach directory files between
    refine ⟨_, _, _, Does.bind hmade hdoes, ?_⟩
    have hdirected : Directed directory tree made between :=
      ⟨horder, hmade.made, hthere directory rfl⟩
    cases hwrites with
    | all => exact .complete hdirected hdoes.made
    | some hsplit hfails => exact .interrupted hdirected hsplit hdoes.made hfails

end QuerySurface.Files
