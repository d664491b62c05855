import QuerySurface.Files.Tree
import QuerySurface.Proofs.Text.Lines

/-!
# Files that were written

What stands on a disk after files were written below a directory, for file trees. A file that was
written is read back as it was, unless a later one leads to the same place. Paths that are plain
names lead to different places if they are different.
-/

namespace QuerySurface.Files

/-! ## Plain names -/

/-- A name that stays one name of a path and leads to nothing but itself. -/
structure IsPlain (name : String) : Prop where
  /-- No slash separates it. -/
  slash : '/' ∉ name.toList
  /-- It is not empty. -/
  empty : name ≠ ""
  /-- It does not stand for the directory itself. -/
  here : name ≠ "."
  /-- It does not lead back. -/
  back : name ≠ ".."

/-- The names on both sides of a slash. -/
theorem names_append_slash (front back : String) :
    names (front ++ "/" ++ back) = names front ++ names back := by
  have hl : (front ++ "/" ++ back).toList = front.toList ++ '/' :: back.toList := by
    simp
  rw [names, hl, Text.splitOn_append_cons, List.map_append, List.filter_append]
  rfl

/-- A plain name is the only name of its path. -/
theorem IsPlain.names_eq {name : String} (h : IsPlain name) : names name = [name] := by
  rw [names, Text.splitOn_of_not_mem h.slash]
  simp [h.empty, h.here]

/-- Seen from a directory, a path that does not start at the root goes on with its names. -/
theorem names_join {path : String} (h : isAbsolute path = false) (directory : String) :
    names (join directory path) = names directory ++ names path := by
  rw [join, h, if_neg (by decide)]
  split
  case isTrue hd =>
    rcases Bool.or_eq_true_iff.mp hd with he | he
    · have hempty : directory = "" := by simpa using he
      rw [hempty, String.empty_append]
      rfl
    · obtain ⟨front, hf⟩ := List.getLast?_eq_some_iff.mp (by simpa using he)
      have hd' : directory = String.ofList front ++ "/" ++ "" := by
        rw [← String.toList_inj]
        simpa using hf
      have hpath : directory ++ path = String.ofList front ++ "/" ++ path := by
        rw [hd', String.append_empty]
      rw [hpath, names_append_slash, hd', names_append_slash]
      simp [names, Text.splitOn]
  case isFalse => rw [names_append_slash]

/-- A plain name does not start at the root. -/
theorem IsPlain.isAbsolute_eq {name : String} (h : IsPlain name) : isAbsolute name = false := by
  have hhead : name.toList.head? ≠ some '/' := fun he => h.slash (List.mem_of_head? he)
  simpa [isAbsolute] using hhead

/-- Seen from a directory, a plain name is one more name. -/
theorem IsPlain.names_join {name : String} (h : IsPlain name) (directory : String) :
    names (join directory name) = names directory ++ [name] := by
  rw [Files.names_join h.isAbsolute_eq, h.names_eq]

namespace Tree

variable {tree later : Tree}

/-! ## Places -/

/-- What is found in entries of which one was replaced. -/
theorem find?_replace {entries : List (List String × Entry)} {place : List String}
    (hp : entries.any (·.1 == place) = true) (entry : Entry) (other : List String) :
    ((entries.map fun old => if old.1 == place then (place, entry) else old).find?
        (·.1 == other)).map (·.2) =
      if other = place then some entry else (entries.find? (·.1 == other)).map (·.2) := by
  have hkey : ∀ old : List String × Entry,
      (if old.1 == place then (place, entry) else old).1 = old.1 := by
    grind
  have hsame : ((fun old : List String × Entry => old.1 == other) ∘ fun old =>
      if old.1 == place then (place, entry) else old) = fun old => old.1 == other := by
    funext old
    simp only [Function.comp_apply, hkey]
  rw [List.find?_map, hsame]
  cases hf : entries.find? (·.1 == other) with
  | none =>
    have hne : other ≠ place := by
      rintro rfl
      obtain ⟨old, ho, hkey⟩ := List.any_eq_true.mp hp
      exact List.find?_eq_none.mp hf old ho hkey
    rw [if_neg hne]
    rfl
  | some found =>
    have hfound : found.1 = other := by simpa using List.find?_some hf
    grind

/-- What stands where after something was put in. -/
theorem at?_put (tree : Tree) {place : List String} (hp : place ≠ []) (entry : Entry)
    (other : List String) :
    (tree.put place entry).at? other = if other = place then some entry else tree.at? other := by
  by_cases he : other.isEmpty = true
  · have hne : other ≠ place := by
      rintro rfl
      exact hp (List.isEmpty_iff.mp he)
    rw [at?, at?, if_pos he, if_pos he, if_neg hne]
  · rw [at?, at?, if_neg he, if_neg he, put]
    split
    · rename_i hany
      exact find?_replace hany entry other
    · grind

/-- Where a path leads. -/
theorem locate_eq_ok_iff {path : String} {place : List String} :
    tree.locate path = .ok place ↔
      path.toList.any (·.toNat == 0) = false ∧ path.isEmpty = false ∧
        tree.follow [] (names path) = .ok place ∧
        (demandsDirectory path = true → tree.at? place = some .directory) := by
  rw [locate]
  cases path.toList.any (·.toNat == 0) with
  | true => simp [bind, Except.bind]
  | false =>
    cases path.isEmpty with
    | true => simp [bind, Except.bind]
    | false =>
      cases tree.follow [] (names path) with
      | error fault => simp [bind, Except.bind]
      | ok found =>
        cases demandsDirectory path with
        | false => simp [bind, Except.bind, pure, Except.pure]
        | true =>
          simp only [bind, Except.bind, pure, Except.pure]
          cases ha : tree.at? found with
          | none => simp; grind
          | some entry => cases entry <;> simp <;> grind

/-- Names followed behind other names. -/
theorem follow_append {place front back target : List String}
    (h : tree.follow place (front ++ back) = .ok target) :
    ∃ between, tree.follow place front = .ok between ∧
      tree.follow between back = .ok target := by
  induction front generalizing place with
  | nil => exact ⟨place, rfl, h⟩
  | cons name rest ih =>
    rw [List.cons_append, follow] at h
    rw [follow]
    split at h
    · cases h
    · cases h
    · split at h
      · rename_i hback
        rw [if_pos hback]
        exact ih h
      · rename_i hback
        rw [if_neg hback]
        split at h
        · cases h
        · rename_i hlong
          rw [if_neg hlong]
          exact ih h

/-- A name that does not lead back leads to a place of that name. -/
theorem follow_singleton {place target : List String} {name : String} (hb : name ≠ "..")
    (h : tree.follow place [name] = .ok target) : target = place ++ [name] := by
  rw [follow] at h
  split at h
  · cases h
  · cases h
  · rw [if_neg hb] at h
    split at h
    · cases h
    · exact (Except.ok.inj h).symm

/-- A plain name in a directory leads to the place of that name directly below the place of the
directory. -/
theorem exists_of_locate {directory name : String} (hn : IsPlain name) {place : List String}
    (h : tree.locate (join directory name) = .ok place) :
    ∃ base, tree.follow [] (names directory) = .ok base ∧ place = base ++ [name] := by
  obtain ⟨-, -, hf, -⟩ := locate_eq_ok_iff.mp h
  rw [hn.names_join] at hf
  obtain ⟨base, hb, hf⟩ := follow_append hf
  exact ⟨base, hb, follow_singleton hn.back hf⟩

/-- A plain name in a directory leads to a place of that name. -/
theorem getLast?_of_locate {directory name : String} (hn : IsPlain name) {place : List String}
    (h : tree.locate (join directory name) = .ok place) : place.getLast? = some name := by
  obtain ⟨base, -, rfl⟩ := exists_of_locate hn h
  exact List.getLast?_concat

/-- Every directory of a tree is one of another tree. -/
def KeepsDirectories (tree later : Tree) : Prop :=
  ∀ place, tree.at? place = some .directory → later.at? place = some .directory

/-- Names that can be followed lead to the same place as long as directories stay. -/
theorem KeepsDirectories.follow (h : tree.KeepsDirectories later) {path place target : List String}
    (hf : tree.follow place path = .ok target) : later.follow place path = .ok target := by
  induction path generalizing place with
  | nil => exact hf
  | cons name rest ih =>
    rw [Tree.follow] at hf ⊢
    split at hf
    · cases hf
    · cases hf
    · rename_i hd
      rw [h place hd]
      dsimp only
      split at hf
      · rename_i hback
        rw [if_pos hback]
        exact ih hf
      · rename_i hback
        rw [if_neg hback]
        split at hf
        · cases hf
        · rename_i hlong
          rw [if_neg hlong]
          exact ih hf

/-- A path leads to the same place as long as directories stay. -/
theorem KeepsDirectories.locate (h : tree.KeepsDirectories later) {path : String}
    {place : List String} (hl : tree.locate path = .ok place) : later.locate path = .ok place := by
  obtain ⟨hz, he, hf, hd⟩ := locate_eq_ok_iff.mp hl
  exact locate_eq_ok_iff.mpr ⟨hz, he, h.follow hf, fun hdir => h place (hd hdir)⟩

/-! ## Writing -/

/-- Files were written below a directory, one after the other: each leads to a place where no
directory stands, and is put there. -/
inductive Wrote (directory : String) : Tree → List TextFile → Tree → Prop where
  /-- Nothing was to be written. -/
  | nothing {tree : Tree} : Wrote directory tree [] tree
  /-- A file was written, and then the others. -/
  | file {tree later : Tree} {file : TextFile} {rest : List TextFile} {place : List String}
      (leads : tree.locate (join directory file.path) = .ok place)
      (free : tree.at? place ≠ some .directory)
      (others : Wrote directory (tree.put place (.file file.contents.toUTF8)) rest later) :
      Wrote directory tree (file :: rest) later

/-- A write that succeeds puts the file in its place. -/
theorem exists_of_write {path : String} {bytes : ByteArray}
    (h : tree.write path bytes = .ok later) :
    ∃ place, tree.locate path = .ok place ∧ tree.at? place ≠ some .directory ∧
      later = tree.put place (.file bytes) := by
  rw [write] at h
  split at h
  · split at h <;> cases h
  · cases h
  · rename_i place hl
    split at h
    · cases h
    · rename_i hfree
      exact ⟨place, hl, hfree, (Except.ok.inj h).symm⟩

/-- An operation on a disk changes the tree if it succeeds. -/
theorem run_change (operation : Tree → Except Fault Tree) (tree : Tree) :
    (change operation).run tree =
      match operation tree with
      | .ok later => (.ok (), later)
      | .error fault => (.error fault, tree) := by
  rw [change]
  cases ho : operation tree <;> simp [ho] <;> rfl

/-- A write on a disk. -/
theorem run_write (tree : Tree) (path : String) (bytes : ByteArray) :
    (disk.write path bytes).run tree =
      match tree.write path bytes with
      | .ok later => (.ok (), later)
      | .error fault => (.error fault, tree) :=
  run_change _ tree

/-- Writing a file and then others. -/
theorem run_writeEach_cons (tree : Tree) (directory : String) (file : TextFile)
    (rest : List TextFile) :
    (disk.writeEach directory (file :: rest)).run tree =
      match tree.write (join directory file.path) file.contents.toUTF8 with
      | .ok between => (disk.writeEach directory rest).run between
      | .error fault => (.error fault, tree) := by
  rw [Disk.writeEach, Disk.writeText, StateT.run_bind, run_write]
  cases tree.write (join directory file.path) file.contents.toUTF8 <;> rfl

/-- Writing files once their directory is made. -/
theorem run_writeFiles (tree : Tree) (directory : String) (files : List TextFile) :
    (disk.writeFiles directory files).run tree =
      match (disk.makeDirectories directory).run tree with
      | (.ok (), made) => (disk.writeEach directory files).run made
      | (.error fault, made) => (.error fault, made) := by
  rw [Disk.writeFiles, StateT.run_bind]
  obtain ⟨outcome, made⟩ := (disk.makeDirectories directory).run tree
  cases outcome <;> rfl

/-- If writing each of some files succeeds, they were written. -/
theorem wrote_of_writeEach {directory : String} {files : List TextFile}
    (h : (disk.writeEach directory files).run tree = (.ok (), later)) :
    Wrote directory tree files later := by
  induction files generalizing tree with
  | nil =>
    obtain rfl : tree = later := congrArg Prod.snd h
    exact .nothing
  | cons file rest ih =>
    rw [run_writeEach_cons] at h
    split at h
    · rename_i between hw
      obtain ⟨place, hl, hfree, rfl⟩ := exists_of_write hw
      exact .file hl hfree (ih h)
    · cases h

/-- If writing files below a directory succeeds, they were written once the directory was made. -/
theorem wrote_of_writeFiles {directory : String} {files : List TextFile}
    (h : (disk.writeFiles directory files).run tree = (.ok (), later)) :
    ∃ made, Wrote directory made files later := by
  rw [run_writeFiles] at h
  split at h
  · rename_i made hm
    exact ⟨made, wrote_of_writeEach h⟩
  · cases h

/-- Where a file was written no directory stood, so it is not the root. -/
theorem ne_nil_of_free {place : List String} (h : tree.at? place ≠ some .directory) :
    place ≠ [] := by
  rintro rfl
  exact h rfl

/-- Writing keeps directories. -/
theorem Wrote.keepsDirectories {directory : String} {files : List TextFile}
    (h : Wrote directory tree files later) : tree.KeepsDirectories later := by
  induction h with
  | nothing => exact fun _ hd => hd
  | file hleads hfree hothers ih =>
    intro place hd
    apply ih
    rw [at?_put _ (ne_nil_of_free hfree), if_neg]
    · exact hd
    · rintro rfl
      exact hfree hd

/-- Where no file leads, nothing changes. -/
theorem Wrote.at?_eq {directory : String} {files : List TextFile}
    (h : Wrote directory tree files later) {place : List String}
    (hp : ∀ file ∈ files, later.locate (join directory file.path) ≠ .ok place) :
    later.at? place = tree.at? place := by
  induction h with
  | nothing => rfl
  | @file tree later file rest target hleads hfree hothers ih =>
    rw [List.forall_mem_cons] at hp
    have hne : place ≠ target := by
      rintro rfl
      have hkept := (Wrote.file hleads hfree hothers).keepsDirectories
      exact hp.1 (hkept.locate hleads)
    rw [ih hp.2, at?_put _ (ne_nil_of_free hfree), if_neg hne]

/-- A file stands below a directory, under its path and with its contents. -/
def Holds (tree : Tree) (directory : String) (file : TextFile) : Prop :=
  tree.read (join directory file.path) = .ok file.contents.toUTF8

/-- Below a directory the paths of two files lead to the same place. -/
def SamePlace (tree : Tree) (directory : String) (file other : TextFile) : Prop :=
  tree.locate (join directory file.path) = tree.locate (join directory other.path)

/-- A file that was written is read back unless a later one leads to the same place. -/
theorem Wrote.holds {directory : String} {front back : List TextFile} {file : TextFile}
    (h : Wrote directory tree (front ++ file :: back) later)
    (hb : ∀ other ∈ back, ¬later.SamePlace directory other file) : later.Holds directory file := by
  induction front generalizing tree with
  | nil =>
    cases h with
    | @file _ _ _ _ place hleads hfree hothers =>
      have hkept := (Wrote.file hleads hfree hothers).keepsDirectories
      have hl : later.locate (join directory file.path) = .ok place := hkept.locate hleads
      have hat := hothers.at?_eq fun other ho he => hb other ho (he.trans hl.symm)
      rw [at?_put _ (ne_nil_of_free hfree), if_pos rfl] at hat
      rw [Holds, read, hl]
      dsimp only
      rw [hat]
  | cons first rest ih =>
    cases h with
    | file hleads hfree hothers => exact ih hothers

/-- A file that was written has a place. -/
theorem Wrote.exists_place {directory : String} {files : List TextFile}
    (h : Wrote directory tree files later) {file : TextFile} (hf : file ∈ files) :
    ∃ place, later.locate (join directory file.path) = .ok place := by
  induction h with
  | nothing => cases hf
  | @file tree later first rest place hleads hfree hothers ih =>
    rcases List.mem_cons.mp hf with rfl | hf
    · exact ⟨place, (Wrote.file hleads hfree hothers).keepsDirectories.locate hleads⟩
    · exact ih hf

/-- Files whose paths are plain names are read back unless a later one has the same path. -/
theorem Wrote.holds_of_isPlain {directory : String} {front back : List TextFile}
    {file : TextFile} (h : Wrote directory tree (front ++ file :: back) later)
    (hf : IsPlain file.path) (hb : ∀ other ∈ back, IsPlain other.path ∧ other.path ≠ file.path) :
    later.Holds directory file := by
  apply h.holds
  intro other ho he
  have hm : file ∈ front ++ file :: back := by simp
  obtain ⟨place, hl⟩ := h.exists_place hm
  have hlast := getLast?_of_locate hf hl
  have hother := getLast?_of_locate (hb other ho).1 (he.trans hl)
  exact (hb other ho).2 (Option.some.inj (hother.symm.trans hlast))

/-- Of files whose paths are different plain names every one is read back, if the one that was
written behind them has another path. -/
theorem Wrote.holds_of_nodup {directory : String} {files : List TextFile} {last file : TextFile}
    (h : Wrote directory tree (files ++ [last]) later)
    (hp : ∀ file ∈ files ++ [last], IsPlain file.path) (hn : (files.map TextFile.path).Nodup)
    (hf : file ∈ files) (hl : last.path ≠ file.path) : later.Holds directory file := by
  obtain ⟨front, back, rfl⟩ := List.append_of_mem hf
  rw [List.append_assoc, List.cons_append] at h
  apply h.holds_of_isPlain (hp file (by simp))
  intro other ho
  refine ⟨hp other (by simp_all), ?_⟩
  rcases List.mem_append.mp ho with hb | hb
  · intro he
    rw [List.map_append, List.map_cons] at hn
    exact (List.nodup_cons.mp (List.nodup_append.mp hn).2.1).1 (he ▸ List.mem_map_of_mem hb)
  · rwa [List.mem_singleton.mp hb]

end Tree

end QuerySurface.Files
