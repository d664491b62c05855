import QuerySurface.Proofs.Files.Writing

/-!
# Files that stay inside a directory

Writing files below a directory makes the directory, and those above it, and puts the files there.
If the paths of the files are plain names, nothing else happens to a tree, however the writing
ends: every file that is there later was there before or stands directly inside the directory,
and everything that was there before and does not stand under one of these names is left as it
is.
-/

namespace QuerySurface.Files

namespace Tree

variable {tree between later : Tree}

/-! ## Directories that are made -/

/-- Directories were added to a tree and nothing else was changed. -/
structure AddsDirectories (tree later : Tree) : Prop where
  /-- What was there is there. -/
  kept : ∀ place entry, tree.at? place = some entry → later.at? place = some entry
  /-- Every file was there. -/
  files : ∀ place bytes, later.at? place = some (.file bytes) → tree.at? place = some (.file bytes)

/-- Nothing has changed. -/
theorem AddsDirectories.refl (tree : Tree) : AddsDirectories tree tree :=
  ⟨fun _ _ h => h, fun _ _ h => h⟩

/-- Directories were added twice. -/
theorem AddsDirectories.trans (h : AddsDirectories tree between)
    (ho : AddsDirectories between later) : AddsDirectories tree later where
  kept place entry he := ho.kept place entry (h.kept place entry he)
  files place bytes hb := h.files place bytes (ho.files place bytes hb)

/-- Making a directory adds it where nothing stood. -/
theorem addsDirectories_of_makeDirectory {path : String}
    (h : tree.makeDirectory path = .ok later) : AddsDirectories tree later := by
  rw [makeDirectory] at h
  split at h
  · cases h
  · rename_i place hl
    split at h
    · cases h
    · rename_i hfree
      obtain rfl := Except.ok.inj h
      have hp : place ≠ [] := by
        rintro rfl
        simp [at?] at hfree
      constructor
      · intro other entry he
        have hne : other ≠ place := by
          rintro rfl
          rw [hfree] at he
          cases he
        rw [at?_put _ hp, if_neg hne, he]
      · intro other bytes hb
        rw [at?_put _ hp] at hb
        split at hb
        · cases hb
        · exact hb

/-- An operation on a disk that adds directories at most. -/
def AddsOnly {α : Type} (action : StateM Tree α) : Prop :=
  ∀ tree, AddsDirectories tree (action.run tree).2

/-- What does nothing adds nothing. -/
theorem AddsOnly.pure {α : Type} (value : α) : AddsOnly (pure value) :=
  fun tree => .refl tree

/-- One operation after another. -/
theorem AddsOnly.bind {α β : Type} {action : StateM Tree α} {next : α → StateM Tree β}
    (h : AddsOnly action) (hn : ∀ value, AddsOnly (next value)) : AddsOnly (action >>= next) := by
  intro tree
  have hrun : (action >>= next).run tree =
      (next (action.run tree).1).run (action.run tree).2 := rfl
  rw [hrun]
  exact (h tree).trans (hn _ _)

/-- Making a directory on a disk adds directories at most. -/
theorem addsOnly_makeDirectory (path : String) : AddsOnly (disk.makeDirectory path) := by
  intro tree
  change AddsDirectories tree ((change fun tree => tree.makeDirectory path).run tree).2
  rw [run_change]
  cases hm : tree.makeDirectory path with
  | error fault => exact .refl tree
  | ok later => exact addsDirectories_of_makeDirectory hm

/-- Asking for a directory changes nothing. -/
theorem addsOnly_isDirectory (path : String) : AddsOnly (disk.isDirectory path) :=
  fun tree => .refl tree

/-- Making a directory and those above it adds directories at most. -/
theorem addsOnly_makeFrom (paths : List String) : AddsOnly (disk.makeFrom paths) := by
  have hlast : ∀ path fault, AddsOnly (do
      return if ← disk.isDirectory path then (Except.ok () : Except Fault Unit)
        else .error fault) :=
    fun path fault => (addsOnly_isDirectory path).bind fun _ => .pure _
  induction paths with
  | nil => exact .pure _
  | cons path above ih =>
    rw [Disk.makeFrom]
    split
    · exact .pure _
    · refine (addsOnly_makeDirectory path).bind fun outcome => ?_
      split
      · exact .pure _
      · refine ih.bind fun outcome => ?_
        split
        · exact .pure _
        · refine (addsOnly_makeDirectory path).bind fun outcome => ?_
          split
          · exact .pure _
          · exact hlast path _
      · exact hlast path _

/-! ## Files that are written -/

/-- Between two trees nothing was put but directories, and these files directly inside the place
to which a directory leads. -/
structure Confined (directory : String) (files : List TextFile) (tree later : Tree) : Prop where
  /-- Every file was there, or is one of these directly inside the directory. -/
  created : ∀ place bytes, later.at? place = some (.file bytes) →
    tree.at? place = some (.file bytes) ∨
      ∃ base, later.follow [] (names directory) = .ok base ∧
        ∃ file ∈ files, place = base ++ [file.path] ∧ bytes = file.contents.toUTF8
  /-- What was there is as it was, unless its place is that of one of these files. -/
  kept : ∀ place entry, tree.at? place = some entry → later.at? place = some entry ∨
    ∃ base, later.follow [] (names directory) = .ok base ∧
      ∃ file ∈ files, place = base ++ [file.path]

/-- Directories may be added first. -/
theorem AddsDirectories.confined {directory : String} {files : List TextFile}
    (h : AddsDirectories tree between) (hc : Confined directory files between later) :
    Confined directory files tree later where
  created place bytes hb := (hc.created place bytes hb).imp_left (h.files place bytes)
  kept place entry he := hc.kept place entry (h.kept place entry he)

/-- Where nothing is written nothing changes. -/
theorem Confined.refl (directory : String) (files : List TextFile) (tree : Tree) :
    Confined directory files tree tree :=
  ⟨fun _ _ h => .inl h, fun _ _ h => .inl h⟩

/-- Writing files with plain names keeps directories and puts the files inside the directory, up to
the fault that may end it. -/
theorem confined_writeEach {directory : String} {files : List TextFile}
    (hp : ∀ file ∈ files, IsPlain file.path) {outcome : Except Fault Unit}
    (h : (disk.writeEach directory files).run tree = (outcome, later)) :
    KeepsDirectories tree later ∧ Confined directory files tree later := by
  induction files generalizing tree with
  | nil =>
    obtain rfl : tree = later := congrArg Prod.snd h
    exact ⟨fun _ hd => hd, .refl directory [] tree⟩
  | cons file rest ih =>
    obtain ⟨hfile, hrest⟩ := List.forall_mem_cons.mp hp
    rw [run_writeEach_cons] at h
    split at h
    · rename_i between hw
      obtain ⟨place, hl, hfree, rfl⟩ := exists_of_write hw
      obtain ⟨base, hb, rfl⟩ := exists_of_locate hfile hl
      have hplace : base ++ [file.path] ≠ [] := by simp
      have hput : KeepsDirectories tree
          (tree.put (base ++ [file.path]) (.file file.contents.toUTF8)) := by
        intro other hd
        rw [at?_put _ hplace, if_neg]
        · exact hd
        · rintro rfl
          exact hfree hd
      obtain ⟨hkeeps, hconfined⟩ := ih hrest h
      have hbase : later.follow [] (names directory) = .ok base := hkeeps.follow (hput.follow hb)
      refine ⟨fun other hd => hkeeps other (hput other hd), ?_, ?_⟩
      · intro other bytes hother
        rcases hconfined.created other bytes hother with he | ⟨below, hbelow, found, hf, hplaced⟩
        · rw [at?_put _ hplace] at he
          split at he
          · rename_i heq
            have hbytes : file.contents.toUTF8 = bytes := Entry.file.inj (Option.some.inj he)
            exact .inr ⟨base, hbase, file, List.mem_cons_self, heq, hbytes.symm⟩
          · exact .inl he
        · exact .inr ⟨below, hbelow, found, List.mem_cons_of_mem _ hf, hplaced⟩
      · intro other entry he
        by_cases hother : other = base ++ [file.path]
        · exact .inr ⟨base, hbase, file, List.mem_cons_self, hother⟩
        · have hputs : (tree.put (base ++ [file.path]) (.file file.contents.toUTF8)).at? other =
              some entry := by
            rw [at?_put _ hplace, if_neg hother, he]
          rcases hconfined.kept other entry hputs with hk | ⟨below, hbelow, found, hf, hplaced⟩
          · exact .inl hk
          · exact .inr ⟨below, hbelow, found, List.mem_cons_of_mem _ hf, hplaced⟩
    · obtain rfl : tree = later := congrArg Prod.snd h
      exact ⟨fun _ hd => hd, .refl directory (file :: rest) tree⟩

/-- Files with plain names are written inside their directory, also where a fault ends the
writing. -/
theorem confined_writeFiles {directory : String} {files : List TextFile}
    (hp : ∀ file ∈ files, IsPlain file.path) {outcome : Except Fault Unit}
    (h : (disk.writeFiles directory files).run tree = (outcome, later)) :
    Confined directory files tree later := by
  rw [run_writeFiles] at h
  have hmade := addsOnly_makeFrom (directory :: (withAncestors directory).drop 1) tree
  rw [← Disk.makeDirectories] at hmade
  split at h
  · rename_i made hm
    rw [hm] at hmade
    exact hmade.confined (confined_writeEach hp h).2
  · rename_i fault made hm
    rw [hm] at hmade
    obtain rfl : made = later := congrArg Prod.snd h
    exact hmade.confined (.refl directory files made)

end Tree

end QuerySurface.Files
